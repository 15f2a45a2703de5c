/-
  **What is left in the TLBs when a flush returns.**

  Every completed `as_flag` is somebody's duty: its range is still dirty, or a running flush
  has taken it, or no CPU holds a translation from before it.  The chain breaks in two
  places.  `as_flush_multi` clears the dirty range before the shootdown, so a second flush
  finds nothing to do and returns while the first has not begun; and `as_switch` stores
  `current_as` before it loads CR3, so a flush that looks in between takes the CPU for one
  that left.
-/
import GovinDos.Lib.Run
import GovinDos.PagingFlag
import GovinDos.ShootdownSlot

namespace GovinDos.Shootdown

open Paging Function

/-! ## 1. What a flush has to achieve -/

def Flagging.Stale (f : Flagging) (e : TlbEntry) : Prop :=
  e.as = f.as ∧ f.lo ≤ e.page * PAGE_SIZE ∧ e.page * PAGE_SIZE < f.hi ∧ e.cached < f.time

def CleanAt (s : State) (f : Flagging) (d : Nat) : Prop := ∀ e ∈ (s.cpu d).tlb, ¬ f.Stale e

def Gone (s : State) (f : Flagging) : Prop := ∀ d < s.g_cpu_state_table_len, CleanAt s f d

/-- Nothing replaced by the time `start` in one of `ases` is still in use. -/
def Clean (s : State) (ases : List Nat) (start : Nat) : Prop :=
  ∀ f ∈ s.flags, f.as ∈ ases → f.time ≤ start → Gone s f

def FlushCall.Carries (call : FlushCall) (f : Flagging) : Prop :=
  (∃ t, (f.as, t) ∈ call.taken ∧ f.time ≤ t) ∧ call.min ≤ f.lo ∧ f.hi ≤ call.max

/-! ## 2. Who answers for a flagging -/

section

variable {s s' : State} {op : Op} {c d : Nat} {call call' : FlushCall} {f : Flagging}

def Cleared (need_mask : List Nat) (c : Nat) (d : Nat) : FlushPc → Prop
  | .taking _ => False
  | .spinning => False
  | .scanning i targets => d < i ∧ d ≠ c ∧ d ∉ targets
  | .invalidating => d ≠ c ∧ d ∉ need_mask
  | .waiting => d ∉ need_mask

/-- A call answers for what it took, and for all that was flagged before it began; every
    flagging has someone to answer for it. -/
structure Tracked (s : State) : Prop where
  mine : ∀ c call, (s.cpu c).act = .flushing call → ∀ f ∈ s.flags, f.time ≤ call.start →
    call.Took f.as → call.Carries f ∨ Gone s f
  cleared : ∀ c call, (s.cpu c).act = .flushing call → ∀ f ∈ s.flags, call.Carries f →
    ∀ d < s.g_cpu_state_table_len, Cleared s.g_tlb_req.need_mask c d call.pc → CleanAt s f d
  served : ∀ d, (s.cpu d).service = .invalidated → ∀ c call, (s.cpu c).act = .flushing call →
    call.pc.holds → ∀ f ∈ s.flags, call.Carries f → CleanAt s f d
  traced : ∀ f ∈ s.flags, (s.as f.as).Covers f.lo f.hi ∨
    (∃ c call, (s.cpu c).act = .flushing call ∧ call.Carries f) ∨ Gone s f

def Fresh (s s' : State) : Prop :=
  ∀ f ∈ s.flags, ∀ d, CleanAt s f d → CleanAt s' f d

theorem Fresh.gone (h : Fresh s s') (hlen : s'.g_cpu_state_table_len = s.g_cpu_state_table_len)
    (hf : f ∈ s.flags) (hg : Gone s f) : Gone s' f := by
  intro d hd
  rw [hlen] at hd
  exact h f hf d (hg d hd)

theorem Fresh.shrink (s t : State) (c : Nat) (k : Cpu) (ht : t.cpu = s.cpu)
    (h : ∀ e ∈ k.tlb, e ∈ (s.cpu c).tlb) : Fresh s (t.setCpu c k) := by
  intro f _ d hclean e he
  rw [cpu_setCpu] at he
  split at he
  · rename_i hdc
    rw [hdc] at hclean
    exact hclean e (h e he)
  · rw [ht] at he
    exact hclean e he

theorem mem_of_mem_invalidated {req : TlbReq} {as min max : Nat} {tlb : List TlbEntry}
    {e : TlbEntry}
    (h : e ∈ if tlbReqMatches req as then tlbInvalidateLocal min max tlb else tlb) : e ∈ tlb := by
  split at h
  · exact mem_of_mem_tlbInvalidateLocal h
  · exact h

theorem invlpgHits_of_mem {min max page : Nat} (halign : PAGE_SIZE ∣ min)
    (hmin : min ≤ page * PAGE_SIZE) (hmax : page * PAGE_SIZE < max) :
    invlpgHits min max page = true := by
  obtain ⟨q, rfl⟩ := halign
  simp only [invlpgHits, List.any_eq_true, List.mem_range, beq_iff_eq]
  simp only [PAGE_SIZE] at *
  exact ⟨page - q, by omega, by omega⟩

theorem not_stale_of_invalidated {min max : Nat} {tlb : List TlbEntry}
    {e : TlbEntry} (halign : min = DIRTY_EMPTY_MIN ∨ PAGE_SIZE ∣ min) (hrange : f.lo < f.hi)
    (hhi : f.hi < 2 ^ 64) (hmin : min ≤ f.lo) (hmax : f.hi ≤ max)
    (he : e ∈ tlbInvalidateLocal min max tlb) : ¬ f.Stale e := by
  intro hst
  have hdvd : PAGE_SIZE ∣ min := by
    refine halign.resolve_left fun hempty => ?_
    rw [hempty, DIRTY_EMPTY_MIN] at hmin
    omega
  rw [tlbInvalidateLocal] at he
  split at he
  · have hhit := invlpgHits_of_mem hdvd (le_trans hmin hst.2.1) (lt_of_lt_of_le hst.2.2.1 hmax)
    have hmiss := (List.mem_filter.mp he).2
    rw [hhit] at hmiss
    cases hmiss
  · cases he

theorem cleanAt_of_invalidated {k : Cpu} {req : TlbReq}
    {e : TlbEntry} (hs : Ready s) (hk : k.Loaded) (hact : k.act.switches = false)
    (hcall : (s.cpu c).act = .flushing call) (hreq : req.ases = call.ases) (hf : f ∈ s.flags)
    (hcar : call.Carries f)
    (he : e ∈ if tlbReqMatches req k.current_as then tlbInvalidateLocal call.min call.max k.tlb
      else k.tlb) : ¬ f.Stale e := by
  obtain ⟨-, hlt, hhi⟩ := hs.dated f hf
  have hok := hs.calls c call hcall
  split at he
  · exact not_stale_of_invalidated hok.aligned hlt hhi hcar.2.1 hcar.2.2 he
  · rename_i hmiss
    intro hst
    obtain ⟨⟨t, ht, -⟩, -⟩ := hcar
    apply hmiss
    rw [tlbReqMatches, hreq, List.contains_iff_mem, ← hk.current hact, ← hk.entries e he, hst.1]
    exact (hok.taken f.as t ht).2

theorem Tracked.cleanAt_of_unmasked (h : Tracked s) {need_mask : List Nat}
    (hneed : ∀ d ∈ s.g_tlb_req.need_mask, d ∈ need_mask ∨ (s.cpu d).service = .invalidated)
    (hc : (s.cpu c).act = .flushing call) (hf : f ∈ s.flags)
    (hcar : call.Carries f) (hd : d < s.g_cpu_state_table_len)
    (hcl : Cleared need_mask c d call.pc) : CleanAt s f d := by
  by_cases hbit : d ∈ s.g_tlb_req.need_mask ∧ d ∉ need_mask ∧ call.pc.awaits
  · obtain ⟨hold, hnew, haw⟩ := hbit
    exact h.served d ((hneed d hold).resolve_left hnew) c call hc haw.holds f hf hcar
  · refine h.cleared c call hc f hf hcar d hd ?_
    cases hpc : call.pc with
    | invalidating =>
      rw [hpc] at hcl hbit
      exact ⟨hcl.1, fun hold => hbit ⟨hold, hcl.2, trivial⟩⟩
    | waiting =>
      rw [hpc] at hcl hbit
      exact fun hold => hbit ⟨hold, hcl, trivial⟩
    | _ => rw [hpc] at hcl; exact hcl

theorem Tracked.frame (h : Tracked s) (hlen : s'.g_cpu_state_table_len = s.g_cpu_state_table_len)
    (hflags : s'.flags = s.flags) (has : s'.as = s.as)
    (hneed : ∀ d ∈ s.g_tlb_req.need_mask,
      d ∈ s'.g_tlb_req.need_mask ∨ (s.cpu d).service = .invalidated)
    (hfresh : Fresh s s')
    (hact : ∀ d call, (s'.cpu d).act = .flushing call ↔ (s.cpu d).act = .flushing call)
    (hserved : ∀ d, (s'.cpu d).service = .invalidated → (s.cpu d).service = .invalidated ∨
      ∀ c call, (s.cpu c).act = .flushing call → call.pc.holds → ∀ f ∈ s.flags,
        call.Carries f → CleanAt s' f d) : Tracked s' where
  mine c call hc f hf hle htook := by
    rw [hflags] at hf
    exact (h.mine c call ((hact c call).mp hc) f hf hle htook).imp id (hfresh.gone hlen hf)
  cleared c call hc f hf hcar d hd hcl := by
    rw [hflags] at hf
    rw [hlen] at hd
    exact hfresh f hf d (h.cleanAt_of_unmasked hneed ((hact c call).mp hc) hf hcar hd hcl)
  served d hd c call hc hh f hf hcar := by
    rw [hflags] at hf
    rw [hact] at hc
    rcases hserved d hd with hold | hnew
    · exact hfresh f hf d (h.served d hold c call hc hh f hf hcar)
    · exact hnew c call hc hh f hf hcar
  traced f hf := by
    rw [hflags] at hf
    rw [has]
    refine (h.traced f hf).imp id (Or.imp ?_ (hfresh.gone hlen hf))
    rintro ⟨c, call, hc, hcar⟩
    exact ⟨c, call, (hact c call).mpr hc, hcar⟩

theorem Tracked.recall (h : Tracked s)
    (hlen : s'.g_cpu_state_table_len = s.g_cpu_state_table_len) (hflags : s'.flags = s.flags)
    (hneed : ∀ d call, d ≠ c → (s.cpu d).act = .flushing call → call.pc.awaits →
      s'.g_tlb_req.need_mask = s.g_tlb_req.need_mask)
    (hfresh : Fresh s s') (hself : (s'.cpu c).act = .flushing call')
    (hothers : ∀ d, d ≠ c → (s'.cpu d).act = (s.cpu d).act)
    (hservice : ∀ d, (s'.cpu d).service = (s.cpu d).service)
    (hcovers : ∀ f ∈ s.flags, (s.as f.as).Covers f.lo f.hi →
      (s'.as f.as).Covers f.lo f.hi ∨ call'.Carries f)
    (hcarries : ∀ call, (s.cpu c).act = .flushing call → ∀ f, call.Carries f → call'.Carries f)
    (hmine : ∀ f ∈ s.flags, f.time ≤ call'.start → call'.Took f.as → call'.Carries f ∨ Gone s f)
    (hcleared : ∀ f ∈ s.flags, call'.Carries f → ∀ d < s.g_cpu_state_table_len,
      Cleared s'.g_tlb_req.need_mask c d call'.pc → CleanAt s' f d)
    (hserved : ∀ d, (s.cpu d).service = .invalidated → call'.pc.holds → ∀ f ∈ s.flags,
      call'.Carries f → CleanAt s' f d) : Tracked s' where
  mine d call hd f hf hle htook := by
    rw [hflags] at hf
    rcases eq_or_ne d c with rfl | hne
    · cases hself.symm.trans hd
      exact (hmine f hf hle htook).imp id (hfresh.gone hlen hf)
    · rw [hothers d hne] at hd
      exact (h.mine d call hd f hf hle htook).imp id (hfresh.gone hlen hf)
  cleared d call hd f hf hcar e he hcl := by
    rw [hflags] at hf
    rw [hlen] at he
    rcases eq_or_ne d c with rfl | hne
    · cases hself.symm.trans hd
      exact hcleared f hf hcar e he hcl
    · rw [hothers d hne] at hd
      refine hfresh f hf e (h.cleared d call hd f hf hcar e he ?_)
      -- only a waiting call reads the mask
      cases hpc : call.pc with
      | invalidating | waiting =>
        rw [hpc, hneed d call hne hd (by rw [hpc]; trivial)] at hcl
        exact hcl
      | _ => rw [hpc] at hcl; exact hcl
  served e he d call hd hh f hf hcar := by
    rw [hflags] at hf
    rw [hservice] at he
    rcases eq_or_ne d c with rfl | hne
    · cases hself.symm.trans hd
      exact hserved e he hh f hf hcar
    · rw [hothers d hne] at hd
      exact hfresh f hf e (h.served e he d call hd hh f hf hcar)
  traced f hf := by
    rw [hflags] at hf
    rcases h.traced f hf with hcov | ⟨d, call, hd, hcar⟩ | hgone
    · exact (hcovers f hf hcov).imp id fun hcar => .inl ⟨c, call', hself, hcar⟩
    · rcases eq_or_ne d c with rfl | hne
      · exact .inr (.inl ⟨d, call', hself, hcarries call hd f hcar⟩)
      · exact .inr (.inl ⟨d, call, (hothers d hne).trans hd, hcar⟩)
    · exact .inr (.inr (hfresh.gone hlen hf hgone))

theorem Tracked.finish (h : Tracked s) {busy : Option Nat}
    (hc : (s.cpu c).act = .flushing call)
    (hgone : ∀ f ∈ s.flags, call.Carries f → Gone s f) :
    Tracked ({ s with g_tlb_busy := busy }.setAct c .idle) := by
  have hfresh : Fresh s ({ s with g_tlb_busy := busy }.setAct c .idle) :=
    .shrink s _ c _ rfl fun e he => he
  -- a call that still runs is another CPU's
  have hother : ∀ {d call'}, (({ s with g_tlb_busy := busy }.setAct c .idle).cpu d).act =
      .flushing call' → (s.cpu d).act = .flushing call' := by
    intro d call' hd
    rw [act_setAct] at hd
    split at hd
    · cases hd
    · exact hd
  refine ⟨fun d call' hd f hf hle htook => ?_, fun d call' hd f hf hcar e he hcl => ?_,
    fun e he d call' hd hh f hf hcar => ?_, fun f hf => ?_⟩
  · exact (h.mine d call' (hother hd) f hf hle htook).imp id (hfresh.gone rfl hf)
  · exact hfresh f hf e (h.cleared d call' (hother hd) f hf hcar e he hcl)
  · have hold : (s.cpu e).service = .invalidated :=
      (service_setAct { s with g_tlb_busy := busy } c e .idle).symm.trans he
    exact hfresh f hf e (h.served e hold d call' (hother hd) hh f hf hcar)
  · rcases h.traced f hf with hcov | ⟨d, call', hd, hcar⟩ | hg
    · exact .inl hcov
    · rcases eq_or_ne d c with rfl | hne
      · cases hc.symm.trans hd
        exact .inr (.inr (hfresh.gone rfl hf (hgone f hf hcar)))
      · exact .inr (.inl ⟨d, call', by rw [act_setAct, if_neg hne]; exact hd, hcar⟩)
    · exact .inr (.inr (hfresh.gone rfl hf hg))

/-! ## 3. The condition, and the step -/

/-- A flush takes a dirty range only while no other unfinished one has taken that
    address space, and looks at no CPU inside `as_switch`. -/
def Orderly (s : State) : Op → Prop
  | .advance c => ∀ call, (s.cpu c).act = .flushing call →
    (∀ a todo, call.pc = .taking (a :: todo) → ∀ d call', d ≠ c →
      (s.cpu d).act = .flushing call' → ¬ call'.Took a) ∧
    (∀ i targets, call.pc = .scanning i targets → (s.cpu i).act.switches = false)
  | _ => True

theorem FlushCall.Carries.took (h : call.Carries f) :
    call.Took f.as := by
  obtain ⟨⟨t, ht, -⟩, -⟩ := h
  exact ⟨t, ht⟩

theorem Taken.carries {a : Nat} {todo : List Nat} {as' : AddressSpace}
    (ht : Taken s call a todo as' call') (h : call.Carries f) :
    call'.Carries f := by
  obtain ⟨⟨t, hat, hle⟩, hmin, hmax⟩ := h
  refine ⟨⟨t, ?_, hle⟩, le_trans ht.min_le hmin, le_trans hmax ht.le_max⟩
  rw [ht.taken]
  exact List.mem_cons_of_mem _ hat

theorem Taken.carries_dirty {todo : List Nat}
    {as' : AddressSpace} (ht : Taken s call f.as todo as' call') (hs : Ready s) (hf : f ∈ s.flags)
    (hcov : (s.as f.as).Covers f.lo f.hi) : call'.Carries f := by
  obtain ⟨htime, hlt, -⟩ := hs.dated f hf
  refine ⟨⟨s.clock, ?_, htime⟩, ht.dirty f.lo f.hi hlt hcov⟩
  rw [ht.taken]
  exact List.mem_cons_self

theorem Tracked.take (h : Tracked s) (hs : Ready s) {a : Nat}
    {todo : List Nat} {as' : AddressSpace} (hact : (s.cpu c).act = .flushing call)
    (ht : Taken s call a todo as' call')
    (hother : ∀ d call', d ≠ c → (s.cpu d).act = .flushing call' → ¬ call'.Took a) :
    Tracked ((s.setAs a as').setAct c (.flushing call')) := by
  have hnew : ∀ call₀, (s.cpu c).act = .flushing call₀ → ∀ f, call₀.Carries f →
      call'.Carries f := by
    intro call₀ hcall₀ f hcar
    cases hact.symm.trans hcall₀
    exact ht.carries hcar
  refine h.recall rfl rfl (fun _ _ _ _ _ => rfl) (.shrink s _ c _ rfl fun e he => he)
    (by rw [act_setAct, if_pos rfl]) (fun d hne => by rw [act_setAct, if_neg hne]; rfl)
    (fun d => service_setAct (s.setAs a as') c d _) ?_ hnew ?_ ?_ ?_
  · -- the dirty range moves to the call
    intro f hf hcov
    rcases eq_or_ne f.as a with rfl | hne
    · exact .inr (ht.carries_dirty hs hf hcov)
    · left
      change (update s.as a as' f.as).Covers f.lo f.hi
      rwa [update_of_ne hne]
  · intro f hf hle htook
    rcases eq_or_ne f.as a with rfl | hne
    · rcases h.traced f hf with hcov | ⟨d, call₁, hd, hcar⟩ | hgone
      · exact .inl (ht.carries_dirty hs hf hcov)
      · rcases eq_or_ne d c with rfl | hne
        · exact .inl (hnew call₁ hd f hcar)
        · exact absurd hcar.took (hother d call₁ hne hd)
      · exact .inr hgone
    · obtain ⟨t, hat⟩ := htook
      rw [ht.taken] at hat
      rw [ht.start] at hle
      have hold : (f.as, t) ∈ call.taken :=
        (List.mem_cons.mp hat).resolve_left fun heq => hne (congrArg Prod.fst heq)
      exact (h.mine c call hact f hf hle ⟨t, hold⟩).imp ht.carries id
  · intro f hf hcar d hd hcl
    rw [ht.pc] at hcl
    exact hcl.elim
  · intro d _ hh
    exact absurd hh (not_holds_taking ht.pc)

theorem Tracked.goto (h : Tracked s) {t : State} {pc : FlushPc}
    (hact : (s.cpu c).act = .flushing call) (hcpu : t.cpu = s.cpu) (has : t.as = s.as)
    (hflags : t.flags = s.flags) (hlen : t.g_cpu_state_table_len = s.g_cpu_state_table_len)
    (hneed : ∀ d call, d ≠ c → (s.cpu d).act = .flushing call → call.pc.awaits →
      t.g_tlb_req.need_mask = s.g_tlb_req.need_mask)
    (hcleared : ∀ f ∈ s.flags, call.Carries f → ∀ d < s.g_cpu_state_table_len,
      Cleared t.g_tlb_req.need_mask c d pc → CleanAt s f d)
    (hserved : ∀ d, (s.cpu d).service = .invalidated → pc.holds → call.pc.holds) :
    Tracked (t.setAct c (.flushing { call with pc := pc })) := by
  have hfresh : Fresh s (t.setAct c (.flushing { call with pc := pc })) :=
    .shrink s t c _ hcpu fun e he => by rwa [hcpu] at he
  refine h.recall hlen hflags hneed hfresh (by rw [act_setAct, if_pos rfl])
    (fun d hne => by rw [act_setAct, if_neg hne, hcpu])
    (fun d => by rw [service_setAct, hcpu]) ?_ ?_ ?_ ?_ ?_
  · intro f _ hcov
    left
    change (t.as f.as).Covers f.lo f.hi
    rwa [has]
  · intro call₀ hcall₀ f hcar
    cases hact.symm.trans hcall₀
    exact hcar
  · intro f hf hle htook
    exact h.mine c call hact f hf hle htook
  · intro f hf hcar d hd hcl
    exact hfresh f hf d (hcleared f hf hcar d hd hcl)
  · intro d hd hh f hf hcar
    exact hfresh f hf d (h.served d hd c call hact (hserved d hd hh) f hf hcar)

theorem Tracked.invalidate (h : Tracked s) (hl : ∀ d, (s.cpu d).Loaded) (hr : Ready s)
    (hs : Slot s) {k : Cpu} (hact : (s.cpu c).act = .flushing call)
    (hpc : call.pc = .invalidating) (hk : k.act = .flushing { call with pc := .waiting })
    (htlb : k.tlb = if tlbReqMatches s.g_tlb_req (s.cpu c).current_as then
      tlbInvalidateLocal call.min call.max (s.cpu c).tlb else (s.cpu c).tlb)
    (hservice : k.service = (s.cpu c).service) : Tracked (s.setCpu c k) := by
  have hh : call.pc.holds := by rw [hpc]; trivial
  have hfresh : Fresh s (s.setCpu c k) := by
    refine .shrink s s c k rfl fun e he => ?_
    rw [htlb] at he
    exact mem_of_mem_invalidated he
  have hself : ((s.setCpu c k).cpu c).act = .flushing { call with pc := .waiting } := by
    rw [act_setCpu, if_pos rfl]
    exact hk
  refine h.recall rfl rfl (fun _ _ _ _ _ => rfl) hfresh hself
    (fun d hne => by rw [act_setCpu, if_neg hne])
    (fun d => service_setCpu s c d k hservice) (fun f _ hcov => .inl hcov)
    (fun call₀ hcall₀ f hcar => ?_) (fun f hf hle htook => h.mine c call hact f hf hle htook)
    (fun f hf hcar d hd hcl => ?_)
    (fun d hd _ f hf hcar => hfresh f hf d (h.served d hd c call hact hh f hf hcar))
  · cases hact.symm.trans hcall₀
    exact hcar
  · rcases eq_or_ne d c with rfl | hne
    · intro e he
      rw [cpu_setCpu, if_pos rfl, htlb] at he
      exact cleanAt_of_invalidated hr (hl d) (switches_flushing hact) hact
        (hs.held d call hact hh).2.1 hf hcar he
    · refine hfresh f hf d (h.cleared c call hact f hf hcar d hd ?_)
      rw [hpc]
      exact ⟨hne, hcl⟩

theorem Tracked.flag (h : Tracked s) (hs : Ready s) {a lo hi : Nat} {flags : PagingFlags}
    {as : AddressSpace} (hlt : lo < hi) (hflag : asFlag (s.as a) lo hi flags = some as) :
    Tracked { s.setAs a as with
      clock := s.clock + 1, flags := ⟨a, lo, hi, s.clock + 1⟩ :: s.flags } where
  mine c call hc f hf hle htook := by
    rcases List.mem_cons.mp hf with rfl | hf
    · have := (hs.calls c call hc).started
      exact absurd hle (by dsimp only; omega)
    · exact h.mine c call hc f hf hle htook
  cleared c call hc f hf hcar d hd hcl := by
    rcases List.mem_cons.mp hf with rfl | hf
    · obtain ⟨⟨t, hat, hle⟩, -⟩ := hcar
      have := ((hs.calls c call hc).taken _ t hat).1
      exact absurd hle (by dsimp only; omega)
    · exact h.cleared c call hc f hf hcar d hd hcl
  served d hd c call hc hh f hf hcar := by
    rcases List.mem_cons.mp hf with rfl | hf
    · obtain ⟨⟨t, hat, hle⟩, -⟩ := hcar
      have := ((hs.calls c call hc).taken _ t hat).1
      exact absurd hle (by dsimp only; omega)
    · exact h.served d hd c call hc hh f hf hcar
  traced f hf := by
    change (update s.as a as f.as).Covers f.lo f.hi ∨ _
    rcases List.mem_cons.mp hf with rfl | hf
    · rw [update_self]
      exact .inl (asFlag_covers hflag hlt)
    · refine (h.traced f hf).imp (fun hcov => ?_) id
      rcases eq_or_ne f.as a with rfl | hne
      · rw [update_self]
        exact (asFlag_widens hflag).covers hcov
      · rwa [update_of_ne hne]

theorem Moves.tracked (h : Moves s op s') (hok : Orderly s op) (hl : ∀ d, (s.cpu d).Loaded)
    (hr : Ready s) (hs : Slot s) (ht : Tracked s) : Tracked s' := by
  cases h with
  | flag hlt hhi hflag => exact ht.flag hr hlt hflag
  | pass => exact ht
  | @cache c page leaf =>
    refine ht.frame rfl rfl rfl (fun d hd => .inl hd) (fun f hf d hclean e he => ?_)
      (act_setCpu_same rfl) (fun d hd => .inl (service_of_setCpu hd rfl))
    -- the new entry is current
    rw [cpu_setCpu] at he
    split at he
    · rename_i hdc
      rw [hdc] at hclean
      rcases List.mem_cons.mp he with rfl | he
      · have := (hr.dated f hf).1
        exact fun hst => absurd hst.2.2.2 (by dsimp only; omega)
      · exact hclean e he
    · exact hclean e he
  | @switch c a hact =>
    refine ht.frame rfl rfl rfl (fun d hd => .inl hd) (.shrink s s c _ rfl fun e he => he)
      (fun d call => ?_) (fun d hd => .inl (service_of_setCpu hd rfl))
    rw [act_setCpu]
    split
    · rename_i hdc
      rw [hdc, hact]
      constructor <;> nofun
    · rfl
  | @loadCr3 c a hact =>
    refine ht.frame rfl rfl rfl (fun d hd => .inl hd) (.shrink s s c _ rfl nofun)
      (fun d call => ?_) (fun d hd => .inl (service_of_setCpu hd rfl))
    rw [act_setCpu]
    split
    · rename_i hdc
      rw [hdc, hact]
      constructor <;> nofun
    · rfl
  | @flush c ases hact =>
    refine ht.recall rfl rfl (fun _ _ _ _ _ => rfl) (.shrink s s c _ rfl fun e he => he)
      (by rw [act_setAct, if_pos rfl]) (fun d hne => by rw [act_setAct, if_neg hne])
      (fun d => service_setAct s c d _) (fun f _ hcov => .inl hcov) (by rw [hact]; nofun)
      (fun f _ _ htook => ?_) ?_ ?_
    · obtain ⟨t, hat⟩ := htook
      cases hat
    · intro f _ _ d _ hcl
      exact hcl.elim
    · intro d _ hh
      exact hh.elim
  | @take c a todo call call' as' hact hpc htaken =>
    exact ht.take hr hact htaken ((hok call hact).1 a todo hpc)
  | @done c call hact hpc hempty =>
    refine ht.finish hact fun f hf hcar => ?_
    have := (hr.dated f hf).2.1
    obtain ⟨-, hmin, hmax⟩ := hcar
    omega
  | @spin c call hact hpc =>
    exact ht.goto hact rfl rfl rfl rfl (fun _ _ _ _ _ => rfl) (fun _ _ _ _ _ hcl => hcl.elim)
      (fun _ _ hh => hh.elim)
  | @acquire c call hact hpc hfree =>
    refine ht.goto hact rfl rfl rfl rfl (fun _ _ _ _ _ => rfl)
      (fun _ _ _ d _ hcl => absurd hcl.1 (Nat.not_lt_zero d)) (fun d hd _ => ?_)
    have hquiet := hs.quiet fun e call' he haw => by
      rw [(hs.held e call' he haw.holds).1] at hfree
      cases hfree
    rw [(hquiet d).2] at hd
    cases hd
  | @scan c i targets call hact hpc =>
    have hh : call.pc.holds := by rw [hpc]; trivial
    refine ht.goto hact rfl rfl rfl rfl (fun _ _ _ _ _ => rfl) (fun f hf hcar d hd hcl => ?_)
      (fun _ _ _ => hh)
    obtain ⟨hlt, hne, hout⟩ := hcl
    rcases Nat.lt_or_ge d i with hdi | hdi
    · refine ht.cleared c call hact f hf hcar d hd ?_
      rw [hpc]
      refine ⟨hdi, hne, fun hmem => hout ?_⟩
      split
      · exact List.mem_cons_of_mem i hmem
      · exact hmem
    · -- the CPU just looked at runs none of the address spaces
      obtain rfl : d = i := by omega
      have hmiss : tlbReqMatches s.g_tlb_req (s.cpu d).current_as = false := by
        rw [Bool.eq_false_iff]
        intro hhit
        rw [if_pos ⟨hne, hhit⟩] at hout
        exact hout List.mem_cons_self
      refine fun e he => cleanAt_of_invalidated hr (hl d) ((hok call hact).2 d targets hpc) hact
        (hs.held c call hact hh).2.1 hf hcar ?_
      rwa [if_neg (by rw [hmiss]; decide)]
  | @publish c i targets call hact hpc hi =>
    have hh : call.pc.holds := by rw [hpc]; trivial
    have hno := hs.not_awaits hact hh (by rw [hpc]; exact id)
    refine ht.goto hact rfl rfl rfl rfl (fun d call' _ hd haw => absurd haw (hno d call' hd))
      (fun f hf hcar d hd hcl => ?_) (fun _ _ _ => hh)
    refine ht.cleared c call hact f hf hcar d hd ?_
    rw [hpc]
    exact ⟨lt_of_lt_of_le hd hi, hcl.1, hcl.2⟩
  | @invalidate c call hact hpc => exact ht.invalidate hl hr hs hact hpc rfl rfl rfl
  | @release c call hact hpc hneed =>
    refine ht.finish hact fun f hf hcar d hd => ht.cleared c call hact f hf hcar d hd ?_
    rw [hpc, hneed]
    exact List.not_mem_nil
  | @see c hbit =>
    refine ht.frame rfl rfl rfl (fun d hd => .inl hd) (.shrink s s c _ rfl fun e he => he)
      (act_setCpu_same rfl) (fun d hd => .inl ?_)
    rw [cpu_setCpu] at hd
    split at hd
    · cases hd
    · exact hd
  | @serve c hact hseen =>
    refine ht.frame rfl rfl rfl (fun d hd => .inl hd)
      (.shrink s s c _ rfl fun e he => mem_of_mem_invalidated he)
      (act_setCpu_same rfl) (fun d hd => ?_)
    rcases eq_or_ne d c with rfl | hne
    · -- the request is the one of the call that holds the slot
      refine .inr fun c call hc hh f hf hcar e he => ?_
      obtain ⟨-, hases, hmin, hmax⟩ := hs.held c call hc hh
      rw [cpu_setCpu, if_pos rfl, hmin, hmax] at he
      exact cleanAt_of_invalidated hr (hl d) hact hc hases hf hcar he
    · rw [cpu_setCpu, if_neg hne] at hd
      exact .inl hd
  | @ack c hdone =>
    refine ht.frame rfl rfl rfl (fun d hd => ?_) (.shrink s _ c _ rfl fun e he => he)
      (act_setCpu_same rfl) (fun d hd => .inl ?_)
    · rcases eq_or_ne d c with rfl | hne
      · exact .inr hdone
      · exact .inl (List.mem_filter.mpr ⟨hd, by simpa using hne⟩)
    · rw [cpu_setCpu] at hd
      split at hd
      · cases hd
      · exact hd

/-! ## 4. Runs -/

structure Inv (s : State) : Prop where
  loaded : ∀ d, (s.cpu d).Loaded
  ready : Ready s
  slot : Slot s
  tracked : Tracked s

theorem inv_boot (ncpus : Nat) (as : Nat → AddressSpace) (current : Nat → Nat) :
    Inv (boot ncpus as current) where
  loaded _ := ⟨nofun, fun _ => rfl, nofun⟩
  ready := ⟨nofun, fun _ => .inl rfl, nofun⟩
  slot := ⟨nofun, nofun, fun _ h => absurd rfl h⟩
  tracked := ⟨nofun, nofun, nofun, nofun⟩

theorem step_inv (hinv : Inv s) (hok : Orderly s op) (h : step s op = some s') : Inv s' where
  loaded := (step_moves h).loaded hinv.loaded
  ready := (step_moves h).ready hinv.ready
  slot := (step_moves h).slot hinv.slot
  tracked := (step_moves h).tracked hok hinv.loaded hinv.ready hinv.slot hinv.tracked

theorem Inv.gone (hinv : Inv s) (hcall : (s.cpu c).act = .flushing call)
    (htodo : call.pc.todo = []) (hgone : ∀ f ∈ s.flags, call.Carries f → Gone s f) :
    Clean s call.ases call.start := by
  intro f hf has hle
  have htook := (hinv.ready.calls c call hcall).covered f.as has
  rw [htodo] at htook
  rcases hinv.tracked.mine c call hcall f hf hle (htook.resolve_right List.not_mem_nil) with
    hcar | hg
  · exact hgone f hf hcar
  · exact hg

end

def Alone (s : State) : Prop := ∀ d, d ≠ 0 → (s.cpu d).act = .idle

def solo (s : State) : Op → Bool
  | .flag _ _ _ _ => true
  | .flush c _ => c = 0
  | .advance c => c = 0 && !(s.cpu 0).act.switches
  | _ => false

theorem Alone.orderly {s : State} {op : Op} (h : Alone s) (hop : solo s op = true) : Orderly s op := by
  cases op with
  | advance c =>
    obtain ⟨rfl, hsw⟩ : c = 0 ∧ (s.cpu 0).act.switches = false := by simpa [solo] using hop
    intro call _
    refine ⟨fun a todo _ d call' hd hact => ?_, fun i _ _ => ?_⟩
    · rw [h d hd] at hact
      cases hact
    · rcases eq_or_ne i 0 with rfl | hi
      · exact hsw
      · rw [h i hi]
        rfl
  | _ => trivial

theorem Alone.step {s s' : State} {op : Op} (h : Alone s) (hop : solo s op = true)
    (hstep : step s op = some s') : Alone s' := by
  intro d hd
  rw [← h d hd]
  cases step_moves hstep <;> simp_all [solo, cpu_setAct, cpu_setCpu, State.setAs]

/-- **One shootdown at a time**, along every run: who holds the slot is alone in it, the
    request is the holder's, and only CPUs that somebody waits for serve it. -/
theorem shootdown_exclusive (ncpus : Nat) (as : Nat → AddressSpace) (current : Nat → Nat)
    (ops : List Op) (s : State)
    (hrun : Run step (fun _ _ => True) (boot ncpus as current) ops s) : Slot s :=
  hrun.invariant (inv_boot ncpus as current).slot fun _ _ _ h _ hstep => (step_moves hstep).slot h

theorem shootdown_exclusive_one : ∃ (s : State) (call : FlushCall),
    (s.cpu 0).act = .flushing call ∧ call.pc.holds ∧ Slot s := by
  obtain ⟨s, hrun, hcall⟩ : ∃ s, Run step (fun _ _ => True)
      (boot 1 (fun _ => asIdentityMapping) (fun _ => 0))
      (.flag 0 0x1000 0x2000 0 :: .flush 0 [0] :: List.replicate 6 (.advance 0)) s ∧
      (s.cpu 0).act = .flushing ⟨[0], 0, GIB, .waiting, 1, [(0, 1)]⟩ :=
    Run.exists_of_eval (fun _ _ _ => trivial) (by decide +kernel)
  exact ⟨s, _, hcall, trivial, shootdown_exclusive 1 _ _ _ s hrun⟩

end GovinDos.Shootdown
