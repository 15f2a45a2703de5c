/-
  **What is left of a process when `proc_sys_destroy` frees it
  (`kernel/src/process.c`, `umem.c`, `scheduler.c`).**

  Nothing, outside two windows: between the two halves of an `as_switch` away from the
  address space, which no longer counts as current although CR3 still holds it; and between
  linking a child and the last read of its body by the thread that created it.
-/
import GovinDos.KernelDeath
import GovinDos.KernelReach

namespace GovinDos.Kernel

open Ownership PlatformMem Function
open Umem (BlockId EdgeRef Backing)

variable {M : May} {pl : Platform} {ncpus : Nat} {s s' : State} {ops : List Op} {op : Op} {p : Nat}

/-! ## 1. References -/

structure Secure (s : State) : Prop where
  off : ∀ c, s.g_cpu_state_table_len ≤ c → (s.cpu c).current_as = none ∧ (s.cpu c).cr3 = none
  current_as : ∀ c p, (s.cpu c).current_as = some p → (s.own.mem p).as.isSome
  cr3 : ∀ c p, (s.cpu c).cr3 = some p → (s.own.mem p).as.isSome
  half : ∀ c, (s.cpu c).job.half = false → (s.cpu c).cr3 = (s.cpu c).current_as
  made : Made s

structure Keeps (s s' : State) : Prop where
  len : s'.g_cpu_state_table_len = s.g_cpu_state_table_len
  as : ∀ p, (s.own.mem p).as.isSome → (s'.own.mem p).as.isSome
  body : ∀ p, (s.g_procs.get p).isSome → (s'.g_procs.get p).isSome

theorem Secure.still (h : Secure s) (hk : Keeps s s') (hcpu : s'.cpu = s.cpu) : Secure s' where
  off c hc := by
    rw [hcpu]
    exact h.off c (by rwa [hk.len] at hc)
  current_as c p hp := hk.as p (h.current_as c p (by rwa [hcpu] at hp))
  cr3 c p hp := hk.as p (h.cr3 c p (by rwa [hcpu] at hp))
  half c := by
    rw [hcpu]
    exact h.half c
  made c p hc hp := hk.body p (h.made c p (by rwa [hk.len] at hc) (by rwa [hcpu] at hp))

theorem Secure.setCpu (h : Secure s) {c : Nat} {k : Cpu}
    (hcur : ∀ p, k.current_as = some p → (s.own.mem p).as.isSome ∧ c < s.g_cpu_state_table_len)
    (hcr3 : ∀ p, k.cr3 = some p → (s.own.mem p).as.isSome ∧ c < s.g_cpu_state_table_len)
    (hhalf : k.job.half = false → k.cr3 = k.current_as)
    (hmade : ∀ p, k.job.made = some p → (s.g_procs.get p).isSome) : Secure (s.setCpu c k) := by
  have hoff : ∀ {o : Option Nat}, (∀ p, o = some p → (s.own.mem p).as.isSome ∧
      c < s.g_cpu_state_table_len) → s.g_cpu_state_table_len ≤ c → o = none := by
    intro o ho hc
    rw [Option.eq_none_iff_forall_ne_some]
    exact fun p hp => Nat.not_lt.mpr hc (ho p hp).2
  refine ⟨fun d hd => ?_, fun d p => ?_, fun d p => ?_, fun d => ?_, fun d p hd => ?_⟩ <;>
    rw [cpu_setCpu] <;> split
  · rename_i hdc
    exact ⟨hoff hcur (hdc ▸ hd), hoff hcr3 (hdc ▸ hd)⟩
  · exact h.off d hd
  · exact fun hp => (hcur p hp).1
  · exact h.current_as d p
  · exact fun hp => (hcr3 p hp).1
  · exact h.cr3 d p
  · exact hhalf
  · exact h.half d
  · exact hmade p
  · exact h.made d p hd

theorem Secure.lt (h : Secure s) {c : Nat}
    (hp : (s.cpu c).current_as = some p ∨ (s.cpu c).cr3 = some p) :
    (s.own.mem p).as.isSome ∧ c < s.g_cpu_state_table_len := by
  constructor
  · exact hp.elim (h.current_as c p) (h.cr3 c p)
  · by_contra hc
    obtain ⟨hcur, hcr3⟩ := h.off c (Nat.not_lt.mp hc)
    rw [hcur, hcr3] at hp
    exact hp.elim nofun nofun

theorem Secure.setJob (h : Secure s) {c : Nat} {j : Job} (hhalf : (s.cpu c).job.half = false)
    (hmade : ∀ p, j.made = some p → (s.g_procs.get p).isSome) : Secure (s.setJob c j) :=
  h.setCpu (fun _ hp => h.lt (.inl hp)) (fun _ hp => h.lt (.inr hp)) (fun _ => h.half c hhalf) hmade

theorem Keeps.of_eq (hlen : s'.g_cpu_state_table_len = s.g_cpu_state_table_len)
    (hown : s'.own = s.own) (hprocs : s'.g_procs = s.g_procs) : Keeps s s' :=
  ⟨hlen, fun p h => by rwa [hown], fun p h => by rwa [hprocs]⟩

theorem Keeps.setProc (q : Nat) (b : Process) : Keeps s (s.setProc q b) :=
  ⟨rfl, fun _ h => h, fun _ => isSome_setProc⟩

theorem Keeps.trans {s'' : State} (h : Keeps s s') (h' : Keeps s' s'') : Keeps s s'' :=
  ⟨h'.len.trans h.len, fun p hp => h'.as p (h.as p hp), fun p hp => h'.body p (h.body p hp)⟩

theorem Keeps.setOwn {own' : Ownership.State} {B V : Nat → Prop} (h : Change B V s.own own') :
    Keeps s (s.setOwn own') :=
  ⟨rfl, fun p hp => by rw [own_setOwn, h.as]; exact hp, fun _ h => h⟩

theorem Move.secure (hm : Move M s s') (hI : Inv s) (h : Secure s) (hf : ∀ p, ¬ M.frees p) :
    Secure s' := by
  have hjob : ∀ {s₁ : State} {c : Nat} {j : Job}, Keeps s s₁ → s₁.cpu = s.cpu →
      (s.cpu c).job.half = false → j.made = none → Secure (s₁.setJob c j) := by
    intro s₁ c j hk hcpu hhalf hmade
    refine (h.still hk hcpu).setJob (by rw [hcpu]; exact hhalf) fun p hp => ?_
    cases hmade.symm.trans hp
  cases hm with
  | job _ hold hnew => exact hjob (.of_eq rfl rfl rfl) rfl hold.half hnew.made
  | take hloop _ _ _ _ _ hnew =>
    exact hjob (.of_eq rfl rfl rfl) rfl (by rw [hloop]; rfl) hnew.made
  | leave _ hold _ | park _ hold _ | mint _ hold =>
    exact hjob (.of_eq rfl rfl rfl) rfl hold.half rfl
  | wake => exact h.still (.of_eq rfl rfl rfl) rfl
  | switch _ _ hnew hhalf =>
    rcases hhalf with ⟨t, th, rfl, -, rfl, has, hc⟩ | ⟨rfl, rfl⟩
    · refine h.setCpu (fun p hp => ?_) (fun _ hp => h.lt (.inr hp)) nofun nofun
      cases hp
      exact ⟨has, hc⟩
    · exact h.setCpu nofun (fun _ hp => h.lt (.inr hp)) nofun nofun
  | load _ _ hnew =>
    exact h.setCpu (fun _ hp => h.lt (.inl hp)) (fun _ hp => h.lt (.inl hp)) (fun _ => rfl)
      fun p hp => by cases hnew.made.symm.trans hp
  | own hkept _ _ => exact h.still (.setOwn hkept.toChange) rfl
  | free _ hold hchange _ _ _ _ => exact hjob (.setOwn hchange) rfl hold.half rfl
  | finish hfin hchange _ => exact hjob (.setOwn hchange) rfl (by rw [hfin]; rfl) rfl
  | post => exact h.still ((Keeps.setProc _ _).trans (.of_eq rfl rfl rfl)) rfl
  | @register c t child th hcreate _ =>
    refine hjob ⟨rfl, fun p hp => ?_, fun p hp => ?_⟩ rfl (by rw [hcreate]; rfl) rfl
    · change ((s.own.setMem child _).mem p).as.isSome
      by_cases hpc : p = child
      · simp [State.setMem, hpc]
      · simpa [State.setMem, hpc] using hp
    · change ((s.g_procs.set child _).get p).isSome
      rw [OrdMap.get_set]
      split
      · rfl
      · exact hp
  | @link c t child th b hlink hth hb _ =>
    refine (h.still (.setProc _ _) rfl).setJob (by rw [cpu_setProc, hlink]; rfl) fun p hp => ?_
    cases hp
    obtain ⟨b', hb', -⟩ := hI.registry.adopts c t child th hlink hth
    exact isSome_setProc (by rw [hb']; rfl)
  | adopt hadopt _ => exact hjob (.of_eq rfl rfl rfl) rfl (by rw [hadopt]; rfl) rfl
  | @spawn q b completion own' _ _ hpin | @reap t th b own' _ _ _ hpin =>
    have hown : Keeps s (s.setOwn own') := .setOwn (hpin.ok hI.memory.ok).1
    exact h.still ⟨rfl, hown.as, fun p hp => isSome_setProc (hown.body p hp)⟩ rfl
  | freeAs _ _ _ _ _ _ _ _ hfrees | unregister _ _ _ _ _ _ _ _ _ _ hfrees =>
    exact absurd hfrees (hf _)
  | _ => exact h.still (.setProc _ _) rfl

theorem Moves.secure (hm : Moves M s s') (hI : Inv s) (h : Secure s) (hf : ∀ p, ¬ M.frees p) :
    Secure s' := by
  induction hm with
  | refl => exact h
  | tail hms hm ih => exact hm.secure (Moves.inv hms hI) ih hf

/-! ## 3. Destruction -/

/-- Destruction does not reach for an address space that a CPU is switching away from, nor
    for a body that its creator has yet to read. -/
def Orderly (s : State) (op : Op) : Prop :=
  ∀ p, Frees s op p → ∀ c, c < s.g_cpu_state_table_len →
    ((s.own.mem p).as.isSome → (s.cpu c).job.half = true → (s.cpu c).cr3 ≠ some p) ∧
    ((s.own.mem p).as = none → (s.cpu c).job.made ≠ some p)

theorem step_destroyed (h : Inv s) (hf : Frees s op p) (hx : step s op = some s') :
    ∃ c t s₁, Destroyed s p s₁ ∧ (s.cpu c).job = .call t (.procDestroy p) ∧
      s' = s₁.setJob c (.user t) := by
  obtain ⟨c, env, t, rfl, hjob⟩ := hf
  unfold step exec at hx
  split at hx
  swap
  · cases hx
  obtain ⟨th, hth, -⟩ := h.threads.onCpu c t (by rw [hjob]; rfl)
  have hact : act s (.advance c env) =
      procSysDestroy s th.proc p >>= fun x => pure (x.1.setJob c (.user t)) := by
    simp only [act, advance, hjob, hth]
    rfl
  rw [hact] at hx
  cases hrun : procSysDestroy s th.proc p with
  | error e =>
    rw [hrun] at hx
    cases hx
  | ok x =>
    rw [hrun] at hx
    cases hx
    exact ⟨c, t, x.1, (procSysDestroy_meets (F := True) h).ok x hrun, hjob, rfl⟩

theorem Secure.not_loaded (h : Secure s)
    (hcur : ∀ c, c < s.g_cpu_state_table_len → (s.cpu c).current_as ≠ some p)
    (hord : ∀ c, c < s.g_cpu_state_table_len → (s.cpu c).job.half = true → (s.cpu c).cr3 ≠ some p)
    (c : Nat) : (s.cpu c).current_as ≠ some p ∧ (s.cpu c).cr3 ≠ some p := by
  refine ⟨fun hp => hcur c (h.lt (.inl hp)).2 hp, fun hp => ?_⟩
  have hc := (h.lt (.inr hp)).2
  cases hhalf : (s.cpu c).job.half with
  | true => exact hord c hc hhalf hp
  | false => exact hcur c hc (by rwa [← h.half c hhalf])

theorem Destroyed.secure (hd : Destroyed s p s') (h : Secure s)
    (hord : ∀ c, c < s.g_cpu_state_table_len →
      ((s.own.mem p).as.isSome → (s.cpu c).job.half = true → (s.cpu c).cr3 ≠ some p) ∧
      ((s.own.mem p).as = none → (s.cpu c).job.made ≠ some p)) : Secure s' := by
  cases hd with
  | refused => exact h
  | space he has hcur =>
    have hsome : (s.own.mem p).as.isSome := by rw [has]; rfl
    have hloaded := h.not_loaded hcur fun c hc => (hord c hc).1 hsome
    have hkeep : ∀ q, q ≠ p → (s.own.mem q).as.isSome →
        ((s.own.setMem p { s.own.mem p with as := none }).mem q).as.isSome := by
      intro q hq hsome
      rwa [show (s.own.setMem p _).mem q = s.own.mem q from update_of_ne hq ..]
    refine ⟨h.off, fun c q hq => hkeep q ?_ (h.current_as c q hq),
      fun c q hq => hkeep q ?_ (h.cr3 c q hq), h.half, h.made⟩
    · rintro rfl
      exact (hloaded c).1 hq
    · rintro rfl
      exact (hloaded c).2 hq
  | @body q b bq he has hparent hq hin =>
    have hkeep : ∀ r, (s.own.mem r).as.isSome → ((s.own.setMem p .none).mem r).as.isSome := by
      intro r hsome
      have hr : r ≠ p := by
        rintro rfl
        rw [has] at hsome
        cases hsome
      rwa [show (s.own.setMem p _).mem r = s.own.mem r from update_of_ne hr ..]
    refine ⟨h.off, fun c r hr => hkeep r (h.current_as c r hr), fun c r hr => hkeep r (h.cr3 c r hr),
      h.half, fun c r hc hr => ?_⟩
    have hrp : r ≠ p := by
      rintro rfl
      exact (hord c hc).2 has hr
    change (((s.g_procs.set q _).erase p).get r).isSome
    rw [OrdMap.get_erase_of_ne _ hrp, OrdMap.get_set]
    split
    · rfl
    · exact h.made c r hc hr

theorem step_secure (hI : Inv s) (h : Secure s) (hlegal : Legal s op) (hord : Orderly s op)
    (hx : step s op = some s') : Secure s' := by
  by_cases hf : ∃ p, Frees s op p
  · obtain ⟨p, hf⟩ := hf
    obtain ⟨c, t, s₁, hd, hjob, rfl⟩ := step_destroyed hI hf hx
    have hcpu : s₁.cpu = s.cpu := by cases hd <;> rfl
    refine (hd.secure h (hord p hf)).setJob ?_ nofun
    rw [hcpu, hjob]
    rfl
  · exact Moves.secure (step_moves hI hlegal hx) hI h fun p hp => hf ⟨p, hp⟩

theorem Move.as_none (hm : Move M s s') (hI : Inv s) (ht : Taken s p)
    (h : (s.own.mem p).as = none) : (s'.own.mem p).as = none := by
  have hchange : ∀ {B V : Nat → Prop}, Change B V s.own s'.own → (s'.own.mem p).as = none := by
    intro B V hc
    rw [← Option.not_isSome_iff_eq_none, hc.as, h]
    nofun
  have hother : ∀ {q : Nat} {m : ProcMem}, (p = q → m.as = none) → s'.own = s.own.setMem q m →
      (s'.own.mem p).as = none := by
    intro q m hm heq
    rw [heq]
    by_cases hpq : p = q
    · subst hpq
      rw [show (s.own.setMem p m).mem p = m from update_self ..]
      exact hm rfl
    · rwa [show (s.own.setMem q m).mem p = s.own.mem p from update_of_ne hpq ..]
  cases hm with
  | own hkept _ _ => exact hchange hkept.toChange
  | free _ _ hfree _ _ _ _ => exact hchange hfree
  | finish _ hfin _ => exact hchange hfin
  | @register c t child th hjob _ =>
    refine hother (q := child) (fun hpc => ?_) rfl
    exact absurd (by rw [hjob, hpc]; rfl) (ht.2 c)
  | spawn _ _ hpin | reap _ _ _ hpin => exact hchange (hpin.ok hI.memory.ok).1
  | freeAs | unregister => exact hother (fun _ => rfl) rfl
  | _ => exact h

/-! ## 4. Runs -/

def Tidy (s : State) (op : Op) : Prop := Legal s op ∧ Orderly s op

structure Vacated (p : Nat) (s : State) : Prop where
  inv : Inv s
  secure : Secure s
  taken : Taken s p
  as : (s.own.mem p).as = none

theorem Moves.vacated (hm : Moves M s s') (hI : Inv s) (ht : Taken s p)
    (h : (s.own.mem p).as = none) : Taken s' p ∧ (s'.own.mem p).as = none := by
  induction hm with
  | refl => exact ⟨ht, h⟩
  | tail hms hm ih => exact ⟨hm.taken ih.1, hm.as_none (Moves.inv hms hI) ih.1 ih.2⟩

theorem Vacated.run (h : Vacated p s) (hrun : Run step Tidy s ops s') : Vacated p s' :=
  hrun.invariant h fun _ _ _ ih hok hx => by
    obtain ⟨ht, has⟩ := Moves.vacated (step_moves ih.inv hok.1 hx) ih.inv ih.taken ih.as
    exact ⟨step_inv ih.inv hok.1 hx, step_secure ih.inv ih.secure hok.1 hok.2 hx, ht, has⟩

theorem Moves.absent (hm : Moves M s s') (ht : Taken s p) (h : s.g_procs.get p = none) :
    Taken s' p ∧ s'.g_procs.get p = none := by
  induction hm with
  | refl => exact ⟨ht, h⟩
  | tail _ hm ih =>
    refine ⟨hm.taken ih.1, ?_⟩
    rw [Option.eq_none_iff_forall_ne_some]
    intro b' hb'
    obtain ⟨b, hb, -⟩ := hm.body_of_taken ih.1 hb'
    cases hb.symm.trans ih.2

theorem Moves.taken (hm : Moves M s s') (ht : Taken s p) : Taken s' p := by
  induction hm with
  | refl => exact ht
  | tail _ hm ih => exact hm.taken ih

def orderly (s : State) : Op → Bool
  | .advance c _ => match (s.cpu c).job with
    | .call _ (.procDestroy p) => (List.range s.g_cpu_state_table_len).all fun d =>
      if (s.own.mem p).as.isSome then !(s.cpu d).job.half || (s.cpu d).cr3 ≠ some p
      else (s.cpu d).job.made ≠ some p
    | _ => true
  | _ => true

end GovinDos.Kernel
