/-
  **Revocation is immediate and final.**

  Between two steps of a revoke the subtree is half deleted and other clients go on.  None
  of that can be seen from outside: what was below the target never resolves as live again,
  while a grant elsewhere resolves as it would have.  For the second part two runs are
  compared, one with the revoke and one without; the allocator may answer differently in
  each.
-/
import GovinDos.CapabilityInvariant

namespace GovinDos.Capability

section runs

variable {mac : TokenHead → BitVec 128} {s s' : State} {ops : List (Command × Answers)}

/-! ## 1. Runs as trails -/

def targets (mac : TokenHead → BitVec 128) (ops : List (Command × Answers)) : List (Option Nat) :=
  ops.map fun op => op.1.target mac

theorem run_trail {ok : State → Command × Answers → Prop}
    {move : Forest Nat Label → Option Nat → Forest Nat Label → Prop}
    (hok : ∀ s op, ok s op → Fresh s op)
    (hmove : ∀ s op s', Shape s → ok s op → step mac s op = some s' →
      move (forest s) (op.1.target mac) (forest s'))
    (hs : Shape s) (hrun : Run (step mac) ok s ops s') :
    Shape s' ∧ Forest.Trail move (forest s) (targets mac ops) (forest s') := by
  induction hrun with
  | nil s => exact ⟨hs, .nil _⟩
  | cons h hstep _ ih =>
    obtain ⟨r, hexec⟩ := step_inv hstep
    have hs' := (exec_refines hs (hok _ _ h) hexec).shape
    obtain ⟨hend, htrail⟩ := ih hs'
    exact ⟨hend, .cons (hmove _ _ _ hs h hstep) htrail⟩

theorem step_move {op : Command × Answers} (hs : Shape s) (hfresh : Fresh s op)
    (hstep : step mac s op = some s') :
    Forest.Move Contained (forest s) (op.1.target mac) (forest s') := by
  obtain ⟨r, hexec⟩ := step_inv hstep
  exact (exec_refines hs hfresh hexec).move

/-! ## 2. What a token answers -/

theorem tokenResolve_congr {token : CapToken} (hs : Shape s) (hs' : Shape s')
    (hnode : (forest s).node token.grant_id_le = (forest s').node token.grant_id_le)
    (hlive : (forest s).Live token.grant_id_le ↔ (forest s').Live token.grant_id_le)
    (need_live : Bool) (type : Nat) :
    tokenResolve mac s token need_live type = tokenResolve mac s' token need_live type := by
  by_cases hgen : Genuine mac token
  · rw [tokenResolve_genuine hs hgen, tokenResolve_genuine hs' hgen, answer, answer, hnode]
    rw [propext hlive]
  · obtain ⟨e, he⟩ := tokenResolve_forged hgen
    rw [he, he]

theorem not_resolves_of_not_live {token : CapToken} {type : Nat} {p : Ptr} (hs : Shape s)
    (hdead : ¬ (forest s).Live token.grant_id_le) :
    tokenResolve mac s token true type ≠ some (.ok p) := by
  intro h
  obtain ⟨-, g, -, hid, -, hlive⟩ := (tokenResolve_ok_iff hs).mp h
  exact hdead (hid ▸ hlive rfl)

/-! ## 3. After a revocation -/

def LeavesTo (mac : TokenHead → BitVec 128) (t : Nat) (s : State) (op : Command × Answers) : Prop :=
  op.1.target mac = some t ∨
    ∀ s', step mac s op = some s' → Forest.Spares t (forest s) (forest s')

/-- What the `k`-th revocation of a grant with `n` grants below it reports, from zero. -/
def revokeStatus (n k : Nat) : SysResult :=
  if k < n then .error .AGAIN else if k = n then .ok 0 else .error .DEAD

structure Revoked (mac : TokenHead → BitVec 128) (s : State) (t : Nat) (s₁ : State) : Prop where
  final : ∀ ops s₂, Run (step mac) Fresh s₁ ops s₂ → ∀ token : CapToken,
    (forest s).Over t token.grant_id_le → ∀ type p,
      tokenResolve mac s₂ token true type ≠ some (.ok p)
  barren : ∀ ops s₂, Run (step mac) Fresh s₁ ops s₂ → ∀ i, (forest s₂).node i ≠ none →
    (forest s₂).Over t i → (forest s).node i ≠ none ∧ (forest s).Over t i
  unnoticed : ∀ token : CapToken, ¬ (forest s).Over t token.grant_id_le → ∀ need_live type,
    tokenResolve mac s₁ token need_live type = tokenResolve mac s token need_live type
  /-- Nor does it change what later commands do to a grant outside.  A grant that is
      revoked in both runs may be freed earlier in one, so past that point the answers
      compared are those for live grants. -/
  parallel : ∀ ops ops' s₂ s₂', Run (step mac) Fresh s₁ ops s₂ → Run (step mac) Fresh s ops' s₂' →
    ops.map (·.1) = ops'.map (·.1) → ∀ token : CapToken,
      (forest s).node token.grant_id_le ≠ none → ¬ (forest s).Over t token.grant_id_le →
        (∀ type p, tokenResolve mac s₂ token true type = some (.ok p) ↔
          tokenResolve mac s₂' token true type = some (.ok p)) ∧
        ((∃ p, tokenResolve mac s₂' token true 0 = some (.ok p)) → ∀ need_live type,
          tokenResolve mac s₂ token need_live type = tokenResolve mac s₂' token need_live type)
  countdown : ∀ ops s₂, Run (step mac) (fun s op => Fresh s op ∧ LeavesTo mac t s op) s₁ ops s₂ →
    ∀ c ans, c.target mac = some t → ∃ s₃ r, exec mac s₂ (c, ans) = some (s₃, r) ∧
      r.status = revokeStatus ((forest s).Below t).ncard ((targets mac ops).count (some t) + 1)

theorem below_finite (hs : Shape s) (t : Nat) : ((forest s).Below t).Finite := by
  refine (s.minted.finite_toSet).subset fun i hi => ?_
  obtain ⟨e, he⟩ := Forest.node_of_below hi
  exact (forest_sound hs).known i e he

theorem alone_of_leavesTo {t : Nat} {op : Command × Answers} (hs : Shape s) (hfresh : Fresh s op)
    (hleaves : LeavesTo mac t s op) (hstep : step mac s op = some s') :
    Forest.Alone Contained t (forest s) (op.1.target mac) (forest s') :=
  ⟨step_move hs hfresh hstep, fun hne => hleaves.resolve_left hne s' hstep⟩

theorem exec_revoke_status {c : Command} {t : Nat} (ans : Answers) (hs : Shape s)
    (hc : c.target mac = some t) (hthere : (forest s).node t ≠ none) :
    ∃ s' r, exec mac s (c, ans) = some (s', r) ∧
      r.status = revokeStatus ((forest s).Below t).ncard 0 := by
  rcases exec_revoke ans hs hc with ⟨hgone, -⟩ | ⟨-, s', status, heq, hs', hmove, hreply⟩
  · exact absurd hgone hthere
  · refine ⟨s', _, heq, ?_⟩
    obtain ⟨e, he⟩ := Option.ne_none_iff_exists'.mp hthere
    obtain ⟨-, ⟨hcard, hgone⟩ | ⟨hcard, -, e', he'⟩⟩ :=
      hmove.revoked (forest_sound hs) he (below_finite hs t)
    · rcases hreply with ⟨-, rfl⟩ | ⟨hstay, -⟩
      · rw [hcard]
        rfl
      · exact absurd hgone hstay
    · rcases hreply with ⟨hgone, -⟩ | ⟨-, rfl⟩
      · rw [he'] at hgone
        cases hgone
      · rw [hcard]
        rfl

end runs

section revoked

variable {mac : TokenHead → BitVec 128} {s s₁ : State} {t : Nat} {ops : List (Command × Answers)}

theorem node_of_over {i : Nat} (hthere : (forest s).node t ≠ none) (h : (forest s).Over t i) :
    (forest s).node i ≠ none := by
  by_cases hi : i = t
  · exact hi ▸ hthere
  · obtain ⟨e, he⟩ := Forest.node_of_below ⟨h, hi⟩
    rw [he]
    simp

theorem known_of_node {i : Nat} (hs : Shape s) (h : (forest s).node i ≠ none) :
    i ∈ (forest s).used := by
  obtain ⟨e, he⟩ := Option.ne_none_iff_exists'.mp h
  exact (forest_sound hs).known i e he

theorem revoked_final (hs : Shape s) (hs₁ : Shape s₁) (hthere : (forest s).node t ≠ none)
    (hmove : Forest.Move Contained (forest s) (some t) (forest s₁))
    {s₂ : State} (hrun : Run (step mac) Fresh s₁ ops s₂) {token : CapToken}
    (hover : (forest s).Over t token.grant_id_le) (type : Nat) (p : Ptr) :
    tokenResolve mac s₂ token true type ≠ some (.ok p) := by
  have hused := known_of_node hs (node_of_over hthere hover)
  have hdead : ¬ (forest s₁).Live token.grant_id_le := fun hlive =>
    ((hmove.live_iff (forest_sound hs) hused).mp hlive).2 t rfl hover
  obtain ⟨hs₂, htrail⟩ := run_trail (fun s op h => h) (fun s op s' => step_move) hs₁ hrun
  exact not_resolves_of_not_live hs₂
    (htrail.final (forest_sound hs₁) (hmove.used hused) hdead).1

theorem revoked_barren (hs : Shape s) (hs₁ : Shape s₁) (hthere : (forest s).node t ≠ none)
    (hmove : Forest.Move Contained (forest s) (some t) (forest s₁))
    {s₂ : State} (hrun : Run (step mac) Fresh s₁ ops s₂) {i : Nat} (hi : (forest s₂).node i ≠ none)
    (hover : (forest s₂).Over t i) : (forest s).node i ≠ none ∧ (forest s).Over t i := by
  have hused := known_of_node hs hthere
  have hdead : ¬ (forest s₁).Live t := fun hlive =>
    ((hmove.live_iff (forest_sound hs) hused).mp hlive).2 t rfl .refl
  obtain ⟨-, htrail⟩ := run_trail (fun s op h => h) (fun s op s' => step_move) hs₁ hrun
  obtain ⟨e, he⟩ := Option.ne_none_iff_exists'.mp hi
  have hover₁ := (htrail.final (forest_sound hs₁) (hmove.used hused) hdead).2 i e hover he
  have hover : (forest s).Over t i := by
    by_cases hit : i = t
    · exact hit ▸ .refl
    · obtain ⟨e₁, he₁⟩ := Forest.node_of_below ⟨hover₁, hit⟩
      obtain ⟨e₀, he₀⟩ := hmove.old.1 i e₁ he₁
      exact (hmove.over_iff (forest_sound hs) ((forest_sound hs).known i e₀ he₀) he₁).mp hover₁
  exact ⟨node_of_over hthere hover, hover⟩

theorem revoked_unnoticed (hs : Shape s) (hs₁ : Shape s₁)
    (hmove : Forest.Move Contained (forest s) (some t) (forest s₁)) {token : CapToken}
    (hout : ¬ (forest s).Over t token.grant_id_le) (need_live : Bool) (type : Nat) :
    tokenResolve mac s₁ token need_live type = tokenResolve mac s token need_live type := by
  have hnode := hmove.old.2 token.grant_id_le hout
  refine tokenResolve_congr hs₁ hs hnode ?_ need_live type
  by_cases hthere : (forest s).node token.grant_id_le = none
  · -- a missing grant is not live on either side
    refine iff_of_false (fun hlive => ?_) fun hlive => ?_
    · obtain ⟨e, he, -⟩ := hlive.node
      rw [hnode, hthere] at he
      cases he
    · obtain ⟨e, he, -⟩ := hlive.node
      rw [hthere] at he
      cases he
  · exact (hmove.agree (forest_sound hs) (known_of_node hs hthere) hout).live.symm

theorem revoked_parallel (hs : Shape s) (hs₁ : Shape s₁)
    (hmove : Forest.Move Contained (forest s) (some t) (forest s₁))
    {ops ops' : List (Command × Answers)} {s₂ s₂' : State} (hrun : Run (step mac) Fresh s₁ ops s₂)
    (hrun' : Run (step mac) Fresh s ops' s₂') (hsame : ops.map (·.1) = ops'.map (·.1))
    {token : CapToken} (hthere : (forest s).node token.grant_id_le ≠ none)
    (hout : ¬ (forest s).Over t token.grant_id_le) :
    (∀ type p, tokenResolve mac s₂ token true type = some (.ok p) ↔
        tokenResolve mac s₂' token true type = some (.ok p)) ∧
      ((∃ p, tokenResolve mac s₂' token true 0 = some (.ok p)) → ∀ need_live type,
        tokenResolve mac s₂ token need_live type = tokenResolve mac s₂' token need_live type) := by
  obtain ⟨hs₂, htrail⟩ := run_trail (fun s op h => h) (fun s op s' => step_move) hs₁ hrun
  obtain ⟨hs₂', htrail'⟩ := run_trail (fun s op h => h) (fun s op s' => step_move) hs hrun'
  have htargets : targets mac ops = targets mac ops' := by
    have h := congrArg (List.map (Command.target mac)) hsame
    rw [List.map_map, List.map_map] at h
    exact h
  have hagree := htrail'.agree (forest_sound hs) (forest_sound hs₁)
    (hmove.agree (forest_sound hs) (known_of_node hs hthere) hout) (htargets ▸ htrail)
  have hequal : (forest s₂').Live token.grant_id_le → ∀ need_live type,
      tokenResolve mac s₂ token need_live type = tokenResolve mac s₂' token need_live type := by
    intro hlive need_live type
    exact tokenResolve_congr hs₂ hs₂' (hagree.node hlive).symm hagree.live.symm need_live type
  refine ⟨fun type p => ?_, fun ⟨p, hp⟩ => hequal ?_⟩
  · by_cases hlive : (forest s₂').Live token.grant_id_le
    · rw [hequal hlive]
    · exact iff_of_false (not_resolves_of_not_live hs₂ (mt hagree.live.mpr hlive))
        (not_resolves_of_not_live hs₂' hlive)
  · by_contra hdead
    exact not_resolves_of_not_live hs₂' hdead hp

theorem revoked_countdown (hs : Shape s) (hs₁ : Shape s₁) (hthere : (forest s).node t ≠ none)
    (hmove : Forest.Move Contained (forest s) (some t) (forest s₁))
    {s₂ : State}
    (hrun : Run (step mac) (fun s op => Fresh s op ∧ LeavesTo mac t s op) s₁ ops s₂) {c : Command}
    (ans : Answers) (hc : c.target mac = some t) :
    ∃ s₃ r, exec mac s₂ (c, ans) = some (s₃, r) ∧
      r.status = revokeStatus ((forest s).Below t).ncard ((targets mac ops).count (some t) + 1) := by
  obtain ⟨hs₂, htrail⟩ := run_trail (fun s op h => h.1)
    (fun s op s' hs h => alone_of_leavesTo hs h.1 h.2) hs₁ hrun
  -- a target that is gone is reported as dead
  have hgone : (forest s₂).node t = none →
      ((forest s).Below t).ncard < (targets mac ops).count (some t) + 1 →
      ∃ s₃ r, exec mac s₂ (c, ans) = some (s₃, r) ∧
        r.status = revokeStatus ((forest s).Below t).ncard ((targets mac ops).count (some t) + 1) := by
    intro hnode hlt
    rcases exec_revoke ans hs₂ hc with ⟨-, heq⟩ | ⟨hstay, -⟩
    · refine ⟨s₂, _, heq, ?_⟩
      rw [revokeStatus, if_neg (by omega), if_neg (by omega)]
      rfl
    · exact absurd hnode hstay
  obtain ⟨e, he⟩ := Option.ne_none_iff_exists'.mp hthere
  obtain ⟨hdead, ⟨hzero, hnode⟩ | ⟨hcard, hsub, e₁, he₁⟩⟩ :=
    hmove.revoked (forest_sound hs) he (below_finite hs t)
  · refine hgone (htrail.gone (hmove.used (known_of_node hs hthere)) hnode) ?_
    omega
  · obtain ⟨hmore, hend⟩ := htrail.countdown (forest_sound hs₁) he₁ hdead
      ((below_finite hs t).subset hsub)
    by_cases hle : (targets mac ops).count (some t) ≤ ((forest s₁).Below t).ncard
    · obtain ⟨⟨e₂, he₂⟩, -, hsum⟩ := hmore hle
      obtain ⟨s₃, r, heq, hstatus⟩ := exec_revoke_status ans hs₂ hc (by rw [he₂]; simp)
      refine ⟨s₃, r, heq, ?_⟩
      rw [hstatus, hcard, revokeStatus, revokeStatus]
      congr 1
      · rw [eq_iff_iff]
        omega
      · congr 1
        rw [eq_iff_iff]
        omega
    · exact hgone (hend (by omega)) (by omega)

theorem run_revoked {s₀ : State} {ops : List (Command × Answers)} {c : Command} {p : Ptr}
    (ans : Answers) (hboot : Booted s₀) (hrun : Run (step mac) Fresh s₀ ops s)
    (hc : c.target mac = some t) (hp : s.g_grants.get t = some p) :
    ∃ s₁ r, exec mac s (c, ans) = some (s₁, r) ∧
      r.status = revokeStatus ((forest s).Below t).ncard 0 ∧ Revoked mac s t s₁ := by
  obtain ⟨hs₀, hgraded₀⟩ := booted_shape hboot
  have hs := (run_shape hs₀ hgraded₀ hrun).1
  have hthere : (forest s).node t ≠ none := by
    obtain ⟨g, hg, rfl⟩ := (hs.index t p).mp hp
    rw [node_of_core hs.toBooks hg]
    simp
  obtain ⟨s₁, r, heq, hstatus⟩ := exec_revoke_status ans hs hc hthere
  rcases exec_revoke ans hs hc with ⟨hgone, -⟩ | ⟨-, s', status, heq', hs₁, hmove, -⟩
  · exact absurd hgone hthere
  · rw [heq] at heq'
    cases heq'
    exact ⟨s₁, _, heq, hstatus,
      fun ops s₂ hrun token hover type p => revoked_final hs hs₁ hthere hmove hrun hover type p,
      fun ops s₂ hrun i hi hover => revoked_barren hs hs₁ hthere hmove hrun hi hover,
      fun token hout need_live type => revoked_unnoticed hs hs₁ hmove hout need_live type,
      fun ops ops' s₂ s₂' hrun hrun' hsame token hthere hout =>
        revoked_parallel hs hs₁ hmove hrun hrun' hsame hthere hout,
      fun ops s₂ hrun c ans hc => revoked_countdown hs hs₁ hthere hmove hrun ans hc⟩

end revoked

def initRevoke (mac : TokenHead → BitVec 128) : Command :=
  .cap (initRing mac) { op := KCAP_REVOKE, a := 0, b := 32, c := 0 }

theorem run_revoked_init : ∃ s s₁ r,
    Run (step fun _ => 0) Fresh bootState [initSubgrant fun _ => 0] s ∧
      exec (fun _ => 0) s (initRevoke fun _ => 0, ⟨none, fun _ => none, none⟩) = some (s₁, r) ∧
      r.status = revokeStatus ((forest s).Below 1).ncard 0 ∧ Revoked (fun _ => 0) s 1 s₁ := by
  obtain ⟨s, hs, hroot, -⟩ := step_initSubgrant
  have hrun := Run.single fresh_initSubgrant hs
  obtain ⟨s₁, r, h⟩ := run_revoked (c := initRevoke fun _ => 0) ⟨none, fun _ => none, none⟩
    booted_bootState hrun (by decide) hroot
  exact ⟨s, s₁, r, hrun, h⟩

end GovinDos.Capability
