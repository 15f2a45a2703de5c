/-
  **When a command gets its completion.**

  A chunk ignores what `channel_post` returns: a completion that finds the queue full is
  gone.  `kring_get_sqe` counts submissions only, while the queue fills with completions and
  events the client has not acknowledged.
-/
import GovinDos.Lib.Run
import GovinDos.Ring

namespace GovinDos.Channel

/-! ## 1. Due and posted -/

def due (log : List Event) : List Kcqe :=
  log.flatMap fun
    | .execute _ cqe => [cqe]
    | _ => []

def completed (log : List Event) : List Kcqe :=
  log.flatMap fun
    | .post .chunk cqe => [cqe]
    | _ => []

def Kernel.pending (k : Kernel) : List Kcqe :=
  match k.chunk, k.post with
  | .executed _ _ _ _, some ⟨.chunk, _, .stored⟩ => []
  | .executed _ _ _ cqe, _ => [cqe]
  | _, _ => []

/-- Every command executed so far has its completion posted, once and in order, up
    to the one in execution. -/
def Answered (s : System) : Prop := due s.log = completed s.log ++ s.kernel.pending

instance (s : System) : Decidable (Answered s) := inferInstanceAs (Decidable (_ = _))

/-- The kernel looks for room for a completion only when fewer entries than slots
    are unacknowledged. -/
def Roomy (s : System) : Op → Prop
  | .kernel (.post (.loadConsumed _)) =>
    (∃ p, s.kernel.post = some p ∧ p.poster = .chunk) →
      s.kernel.ring.cq_count - s.block.hdr.cq_head < s.kernel.ring.nslots
  | _ => True

/-! ## 2. One step -/

def Kernel.Linked (k : Kernel) : Prop :=
  ∀ p, k.post = some p → p.poster = .chunk → ∃ tail done budget, k.chunk = .executed tail done budget p.cqe

theorem Kernel.Move.balance {k k' : Kernel} {op : KernelOp} {access : Option Access}
    (h : k.Move op k' access) (hk : k.Linked) : k'.Linked ∧
      (k.pending ++ due (k.events op) = completed (k.events op) ++ k'.pending ∨
        ∃ p consumed, k.post = some p ∧ p.poster = .chunk ∧ op = .post (.loadConsumed consumed) ∧
          access = some (.load .cq_head consumed) ∧ k.ring.nslots ≤ k.ring.cq_count - consumed ∧
          k.pending = [p.cqe] ∧ k'.pending = []) := by
  -- no chunk posts from outside `executed`
  have hevent : ∀ {ring chunk p}, Kernel.Linked ⟨ring, chunk, some p⟩ →
      (∀ tail done budget, chunk ≠ .executed tail done budget p.cqe) → p.poster = .event := by
    intro ring chunk p hlinked hne
    cases hp : p.poster with
    | event => rfl
    | chunk =>
      obtain ⟨tail, done, budget, heq⟩ := hlinked p rfl hp
      exact absurd heq (hne tail done budget)
  have hmove : ∀ {ring chunk ring' chunk' post},
      Kernel.Linked ⟨ring, chunk, post⟩ → (∀ tail done budget cqe, chunk ≠ .executed tail done budget cqe) →
      Kernel.Linked ⟨ring', chunk', post⟩ := by
    intro ring chunk ring' chunk' post hlinked hne p hp hposter
    obtain ⟨tail, done, budget, heq⟩ := hlinked p hp hposter
    exact absurd heq (hne tail done budget p.cqe)
  cases h with
  | lying hlie => exact ⟨hk, .inl rfl⟩
  | @exec ring post tail done budget sqe status a b =>
    refine ⟨hmove hk (by simp), .inl ?_⟩
    cases post with
    | none => rfl
    | some p =>
      have hp := hevent hk (by simp)
      obtain ⟨poster, cqe, stage⟩ := p
      cases hp
      rfl
  | postCompletion =>
    refine ⟨?_, .inl rfl⟩
    rintro _ ⟨⟩ -
    exact ⟨_, _, _, rfl⟩
  | @postEvent ring chunk cqe =>
    refine ⟨?_, .inl ?_⟩
    · rintro _ ⟨⟩ ⟨⟩
    · cases chunk <;> rfl
  | @full ring chunk poster cqe consumed hfull =>
    cases poster with
    | event =>
      refine ⟨?_, .inl ?_⟩
      · rintro _ ⟨⟩
      · cases chunk <;> rfl
    | chunk =>
      obtain ⟨tail, done, budget, heq⟩ := hk _ rfl rfl
      subst heq
      refine ⟨?_, .inr ⟨_, consumed, rfl, rfl, rfl, rfl, hfull, rfl, rfl⟩⟩
      rintro _ ⟨⟩
  | @room ring chunk poster cqe consumed hroom =>
    refine ⟨?_, .inl ?_⟩
    · rintro _ ⟨⟩ hposter
      exact hk ⟨poster, cqe, .locked⟩ rfl hposter
    · cases chunk <;> cases poster <;> rfl
  | @writeCqe ring chunk poster cqe =>
    refine ⟨?_, .inl ?_⟩
    · rintro _ ⟨⟩ hposter
      exact hk ⟨poster, cqe, .room⟩ rfl hposter
    · cases chunk <;> cases poster <;> rfl
  | @storeCount ring chunk poster cqe =>
    refine ⟨?_, .inl ?_⟩
    · rintro _ ⟨⟩ hposter
      exact hk ⟨poster, cqe, .written⟩ rfl hposter
    · cases poster with
      | event => cases chunk <;> rfl
      | chunk =>
        obtain ⟨tail, done, budget, heq⟩ := hk _ rfl rfl
        subst heq
        rfl
  | @wake ring chunk poster cqe =>
    cases poster with
    | event =>
      refine ⟨?_, .inl ?_⟩
      · rintro _ ⟨⟩
      · cases chunk <;> rfl
    | chunk =>
      obtain ⟨tail, done, budget, heq⟩ := hk _ rfl rfl
      subst heq
      refine ⟨?_, .inl rfl⟩
      rintro _ ⟨⟩
  | cqeConsumed => exact ⟨hk, .inl (List.append_nil _)⟩
  | _ => exact ⟨hmove hk (by simp), .inl rfl⟩

theorem due_append (log log' : List Event) : due (log ++ log') = due log ++ due log' :=
  List.flatMap_append

theorem completed_append (log log' : List Event) :
    completed (log ++ log') = completed log ++ completed log' := List.flatMap_append

theorem Kring.quiet {r r' : Kring} {b b' : Block} {op : ClientOp} {events : List Event}
    (h : r.step b op = some (r', b', events)) : due events = [] ∧ completed events = [] := by
  cases op with
  | waitPeek =>
    simp only [Kring.step] at h
    split at h
    · split at h
      · cases h
        exact ⟨rfl, rfl⟩
      · cases h
        exact ⟨rfl, rfl⟩
    · cases h
  | woken rc =>
    obtain ⟨_, -, hr⟩ := Option.bind_eq_some_iff.mp h
    cases hr
    exact ⟨rfl, rfl⟩
  | _ =>
    simp only [Kring.step] at h
    split at h <;> cases h
    exact ⟨rfl, rfl⟩

structure Account (s : System) (lost : Nat) : Prop where
  linked : s.kernel.Linked
  count : (due s.log).length = (completed s.log).length + s.kernel.pending.length + lost
  answered : lost = 0 → Answered s

theorem roomy_of_kept {s : System} {op : KernelOp} {k' : Kernel} {access : Option Access} {b' : Block}
    (hmove : s.kernel.Move op k' access) (hb : s.block.perform access = some b')
    (hlinked : s.kernel.Linked)
    (hkept : s.kernel.pending ++ due (s.kernel.events op) =
      completed (s.kernel.events op) ++ k'.pending) : Roomy s (.kernel op) := by
  cases op with
  | post op =>
    cases op with
    | loadConsumed consumed =>
      rintro ⟨p, hpost, hposter⟩
      obtain ⟨k, b, r, log⟩ := s
      cases hmove with
      | full hfull =>
        cases hpost
        obtain ⟨tail, done, budget, heq⟩ := hlinked _ rfl hposter
        cases hposter
        subst heq
        cases hkept
      | room hroom =>
        rw [← (Block.perform_load hb).1] at hroom
        exact hroom
    | _ => trivial
  | _ => trivial

theorem Account.step {s s' : System} {lost : Nat} {op : Op} (h : Account s lost)
    (hstep : s.step op = some s') :
    ∃ lost', Account s' lost' ∧ lost ≤ lost' ∧ (lost' = lost ↔ Roomy s op) := by
  cases op with
  | client op =>
    simp only [System.step] at hstep
    obtain ⟨⟨r', b', events⟩, hr, hstep⟩ := Option.bind_eq_some_iff.mp hstep
    cases hstep
    obtain ⟨hdue, hcompleted⟩ := Kring.quiet hr
    refine ⟨lost, ⟨h.linked, ?_, fun h0 => ?_⟩, Nat.le_refl _, iff_of_true rfl trivial⟩
    · rw [due_append, completed_append, hdue, hcompleted, List.append_nil, List.append_nil]
      exact h.count
    · rw [Answered, due_append, completed_append, hdue, hcompleted, List.append_nil, List.append_nil]
      exact h.answered h0
  | kernel op =>
    simp only [System.step] at hstep
    obtain ⟨⟨k', access⟩, hk, hstep⟩ := Option.bind_eq_some_iff.mp hstep
    obtain ⟨b', hb, hstep⟩ := Option.bind_eq_some_iff.mp hstep
    cases hstep
    have hmove := Kernel.move_of_step hk
    obtain ⟨hlinked, hkept | ⟨p, consumed, hpost, hposter, rfl, rfl, hfull, hpending, hgone⟩⟩ :=
      hmove.balance h.linked
    · have hlen := congrArg List.length hkept
      simp only [List.length_append] at hlen
      refine ⟨lost, ⟨hlinked, ?_, fun h0 => ?_⟩, Nat.le_refl _, iff_of_true rfl ?_⟩
      · have := h.count
        simp only [due_append, completed_append, List.length_append]
        omega
      · have := h.answered h0
        rw [Answered] at this ⊢
        rw [due_append, completed_append, this, List.append_assoc, hkept, List.append_assoc]
      · exact roomy_of_kept hmove hb h.linked hkept
    · have hroom : ¬ Roomy s (.kernel (.post (.loadConsumed consumed))) := by
        intro hroomy
        have hlt := hroomy ⟨p, hpost, hposter⟩
        rw [show s.block.hdr.cq_head = consumed from (Block.perform_load hb).1] at hlt
        exact absurd hfull (UInt32.not_le.mpr hlt)
      refine ⟨lost + 1, ⟨hlinked, ?_, fun h0 => ?_⟩, Nat.le_succ _, ?_⟩
      · have := h.count
        rw [hpending] at this
        rw [hgone]
        simpa [Kernel.events, Nat.add_assoc, Nat.add_comm] using this
      · cases h0
      · exact iff_of_false (Nat.succ_ne_self lost) hroom

/-! ## 3. Every run -/

theorem account_create (order : Nat) (sq : Nat → Ksqe) (cq : Nat → Kcqe) :
    Account (.create order sq cq) 0 := by
  refine ⟨?_, rfl, fun _ => rfl⟩
  rintro _ ⟨⟩

theorem Account.run {ops : List Op} {s s' : System} {lost : Nat} (h : Account s lost)
    (hrun : Run System.step (fun _ _ => True) s ops s') :
    ∃ lost', Account s' lost' ∧ lost ≤ lost' ∧ (lost' = lost ↔ Run System.step Roomy s ops s') := by
  induction hrun generalizing lost with
  | nil s => exact ⟨lost, h, Nat.le_refl _, iff_of_true rfl (.nil s)⟩
  | cons _ hstep _ ih =>
    obtain ⟨lost₁, h₁, hle₁, hroomy⟩ := h.step hstep
    obtain ⟨lost₂, h₂, hle₂, hrest⟩ := ih h₁
    refine ⟨lost₂, h₂, Nat.le_trans hle₁ hle₂, ?_, ?_⟩
    · intro heq
      have heq₁ : lost₁ = lost := by omega
      exact .cons (hroomy.mp heq₁) hstep (hrest.mp (heq.trans heq₁.symm))
    · intro hrun
      cases hrun with
      | cons hok hstep' hrun' =>
        rw [hstep] at hstep'
        cases hstep'
        exact (hrest.mpr hrun').trans (hroomy.mpr hok)

/-- Every command has its completion exactly in the runs in which the kernel finds
    room for each of them. -/
theorem answered_iff_roomy (order : Nat) (sq : Nat → Ksqe) (cq : Nat → Kcqe) {ops : List Op}
    {s : System} (hrun : Run System.step (fun _ _ => True) (.create order sq cq) ops s) :
    Answered s ↔ Run System.step Roomy (.create order sq cq) ops s := by
  obtain ⟨lost, haccount, -, hroomy⟩ := (account_create order sq cq).run hrun
  rw [← hroomy]
  constructor
  · intro hanswered
    have hcount := haccount.count
    rw [hanswered, List.length_append] at hcount
    omega
  · exact haccount.answered

/-- One command: taken, filled, submitted, executed, and its completion posted while
    there is room. -/
def round (i : Nat) : List Op :=
  [.client .getSqe, .client (.fill (i % 32) ⟨1, i, 0, 0⟩), .client .submit,
    .kernel (.chunk (.runChunk 64 (UInt32.ofNat (i + 1)))),
    .kernel (.chunk (.copySqe ⟨1, i, 0, 0⟩)), .kernel (.chunk .storeHead),
    .kernel (.chunk (.exec (.ok 0) i 0)), .kernel (.chunk .postCompletion),
    .kernel (.post (.loadConsumed 0))] ++
  (if i < 32 then [.kernel (.post .writeCqe), .kernel (.post .storeCount), .kernel (.post .wake)]
    else []) ++
  [.kernel (.chunk .endChunk), .client (.woken (.ok 0))]

theorem answered_iff_roomy_round :
    ∃ s, Run System.step (fun _ _ => True)
        (.create 0 (fun _ => ⟨0, 0, 0, 0⟩) (fun _ => ⟨0, 0, 0, .ok 0⟩)) (round 0) s ∧
      (Answered s ↔ Run System.step Roomy
        (.create 0 (fun _ => ⟨0, 0, 0, 0⟩) (fun _ => ⟨0, 0, 0, .ok 0⟩)) (round 0) s) := by
  have hrun : ∃ s, Run System.step (fun _ _ => True)
      (.create 0 (fun _ => ⟨0, 0, 0, 0⟩) (fun _ => ⟨0, 0, 0, .ok 0⟩)) (round 0) s ∧
        completed s.log = [⟨1, 0, 0, .ok 0⟩] :=
    Run.exists_of_eval (fun _ _ _ => trivial) (by decide +kernel)
  obtain ⟨s, hrun, -⟩ := hrun
  exact ⟨s, hrun, answered_iff_roomy 0 _ _ hrun⟩

/-- The smallest ring has 32 slots; the completion of the 33rd command is lost. -/
theorem answered_fails :
    ∃ s, Run System.step (fun _ _ => True)
        (.create 0 (fun _ => ⟨0, 0, 0, 0⟩) (fun _ => ⟨0, 0, 0, .ok 0⟩))
        ((List.range 33).flatMap round) s ∧
      ¬ Answered s :=
  Run.exists_of_eval (fun _ _ _ => trivial) (by decide +kernel)

end GovinDos.Channel
