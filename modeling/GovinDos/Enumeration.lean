/-
  **The six enumeration calls (`kernel/src/umem.c`, `process.c`, `iommu.c`).**

  Each call copies keys above a cursor out of one tree in one section under `g_umem`.  A
  sweep is a sequence of calls, each with the last key received as its cursor; between two
  of them anything may happen.
-/
import GovinDos.Kernel
import GovinDos.Lib.Sweep

namespace GovinDos.Enumeration

open Ownership
open Umem (BlockId)

/-! ## 1. The calls -/

def VM_ENUM_BATCH : Nat := 128

/-- What a call finds: the kernel, the mapping trees of the IOMMU (null where there is
    no mapping), and whether the caller's buffer is good. -/
structure Moment where
  kernel : Kernel.State
  dma_maps : BlockId → Option (OrdMap Nat Unit)
  buffer : Bool

def umemEnumCopyoutLocked (buffer : Bool) (cap : Nat) (values : List Nat) :
    Except SysErr (List Nat) :=
  if cap = 0 ∨ VM_ENUM_BATCH < cap ∨ cap < values.length then .error .INVAL
  else if buffer then .ok values
  else .error .FAULT

/-- The body that the calls have in common: `tree` is null where the caller has no
    authority. -/
def enumerate {V : Type} (tree : Option (OrdMap Nat V)) (buffer : Bool) (cap after : Nat) :
    Except SysErr (List Nat) :=
  if cap = 0 ∨ VM_ENUM_BATCH < cap then .error .INVAL
  else match tree with
    | none => .error .PERM
    | some tree => umemEnumCopyoutLocked buffer cap (Sweep.gather cap after tree.keys)

def enumSubjectLocked (m : Moment) (caller pid : Nat) : Option Nat :=
  Kernel.resourceSubjectLocked m.kernel caller pid

def umemResourceBlockLocked (m : Moment) (caller base : Nat) : Option BlockId :=
  match m.kernel.own.g_ublocks.get base with
  | none => none
  | some id => match m.kernel.own.heap id with
    | none => none
    | some b => if resourceAuthorized m.kernel.links caller b.owner then some id else none

def blocksTree (m : Moment) (caller pid : Nat) : Option (OrdMap Nat BlockId) :=
  (enumSubjectLocked m caller pid).map fun p => (m.kernel.own.mem p).blocks

def umemEnumBlocks (m : Moment) (caller pid cap after : Nat) : Except SysErr (List Nat) :=
  enumerate (blocksTree m caller pid) m.buffer cap after

def viewsTree (m : Moment) (caller pid : Nat) : Option (OrdMap Nat Umem.EdgeRef) :=
  (enumSubjectLocked m caller pid).map fun p => (m.kernel.own.mem p).views

def umemEnumViews (m : Moment) (caller pid cap after : Nat) : Except SysErr (List Nat) :=
  enumerate (viewsTree m caller pid) m.buffer cap after

def sharersTree (m : Moment) (caller base : Nat) : Option (OrdMap Nat ShareEdge) :=
  (umemResourceBlockLocked m caller base).map m.kernel.own.sharers

def umemEnumSharers (m : Moment) (caller base cap after : Nat) : Except SysErr (List Nat) :=
  enumerate (sharersTree m caller base) m.buffer cap after

def mapsTree (m : Moment) (caller base : Nat) : Option (OrdMap Nat Unit) :=
  (umemResourceBlockLocked m caller base).map fun id => (m.dma_maps id).getD .empty

def iommuEnumMaps (m : Moment) (caller base cap after : Nat) : Except SysErr (List Nat) :=
  enumerate (mapsTree m caller base) m.buffer cap after

def threadsTree (m : Moment) (me pid : Nat) : Option (OrdMap Nat Nat) :=
  (Kernel.resourceSubjectLocked m.kernel me pid).bind fun p =>
    (m.kernel.g_procs.get p).map (·.threads)

def procSysThreads (m : Moment) (me pid cap after : Nat) : Except SysErr (List Nat) :=
  enumerate (threadsTree m me pid) m.buffer cap after

def childrenTree (m : Moment) (me pid : Nat) : Option (OrdMap Nat Nat) :=
  (Kernel.resourceSubjectLocked m.kernel me pid).bind fun p =>
    (m.kernel.g_procs.get p).map (·.children)

def procSysChildren (m : Moment) (me pid cap after : Nat) : Except SysErr (List Nat) :=
  enumerate (childrenTree m me pid) m.buffer cap after

theorem enumerate_ok {V : Type} {tree : Option (OrdMap Nat V)} {buffer : Bool} {cap after : Nat}
    {values : List Nat} (h : enumerate tree buffer cap after = .ok values) :
    ∃ t, tree = some t ∧ values = Sweep.gather cap after t.keys := by
  unfold enumerate at h
  split at h
  · cases h
  cases tree with
  | none => cases h
  | some t =>
    simp only [umemEnumCopyoutLocked] at h
    split at h
    · cases h
    split at h
    · cases h
      exact ⟨t, rfl, rfl⟩
    · cases h

theorem procSysChildren_kernel {m : Moment} {me pid cap after : Nat} {values : List Nat}
    (h : procSysChildren m me pid cap after = .ok values) :
    Kernel.procSysChildren m.kernel me pid cap after = .ok values := by
  obtain ⟨t, htree, rfl⟩ := enumerate_ok h
  obtain ⟨p, hp, ht⟩ := Option.bind_eq_some_iff.mp htree
  obtain ⟨b, hb, rfl⟩ := Option.map_eq_some_iff.mp ht
  simp only [Kernel.procSysChildren, hp, hb, Sweep.gather_eq]

/-! ## 2. Sweeps -/

inductive Walker where
  | blocks (pid : Nat)
  | views (pid : Nat)
  | sharers (base : Nat)
  | maps (base : Nat)
  | threads (pid : Nat)
  | children (pid : Nat)

def Walker.call (caller : Nat) : Walker → Moment → Nat → Nat → Except SysErr (List Nat)
  | blocks pid, m => umemEnumBlocks m caller pid
  | views pid, m => umemEnumViews m caller pid
  | sharers base, m => umemEnumSharers m caller base
  | maps base, m => iommuEnumMaps m caller base
  | threads pid, m => procSysThreads m caller pid
  | children pid, m => procSysChildren m caller pid

def Walker.keys (caller : Nat) : Walker → Moment → List Nat
  | blocks pid, m => ((blocksTree m caller pid).map OrdMap.keys).getD []
  | views pid, m => ((viewsTree m caller pid).map OrdMap.keys).getD []
  | sharers base, m => ((sharersTree m caller base).map OrdMap.keys).getD []
  | maps base, m => ((mapsTree m caller base).map OrdMap.keys).getD []
  | threads pid, m => ((threadsTree m caller pid).map OrdMap.keys).getD []
  | children pid, m => ((childrenTree m caller pid).map OrdMap.keys).getD []

structure Visit where
  moment : Moment
  cap : Nat
  values : List Nat

/-- Successful calls, the first with cursor `after` and each later one with the last key
    received. -/
inductive Sweeps (caller : Nat) (w : Walker) : Nat → List Visit → Prop
  | nil (after : Nat) : Sweeps caller w after []
  | cons {after : Nat} {v : Visit} {vs : List Visit}
      (hcall : w.call caller v.moment v.cap after = .ok v.values)
      (h : Sweeps caller w (v.values.getLast?.getD after) vs) : Sweeps caller w after (v :: vs)

def received (vs : List Visit) : List Nat := vs.flatMap (·.values)

variable {caller : Nat} {w : Walker}

theorem Walker.call_ok {m : Moment} {cap after : Nat} {values : List Nat}
    (h : w.call caller m cap after = .ok values) :
    (w.keys caller m).Pairwise (· < ·) ∧ values = Sweep.gather cap after (w.keys caller m) := by
  cases w with
  | _ =>
    obtain ⟨t, ht, rfl⟩ := enumerate_ok h
    simp [Walker.keys, ht, t.sorted_keys]

def Visit.look (caller : Nat) (w : Walker) (v : Visit) : Sweep.Visit Nat :=
  ⟨w.keys caller v.moment, v.cap, v.values⟩

theorem Sweeps.run {after : Nat} {vs : List Visit} (h : Sweeps caller w after vs) :
    Sweep.Run after (vs.map (Visit.look caller w)) := by
  induction h with
  | nil after => exact .nil after
  | cons hcall _ ih =>
    obtain ⟨hsorted, hvalues⟩ := Walker.call_ok hcall
    exact .cons hsorted hvalues ih

theorem returned_look (caller : Nat) (w : Walker) (vs : List Visit) :
    Sweep.returned (vs.map (Visit.look caller w)) = received vs := by
  simp [Sweep.returned, received, List.flatMap_map, Visit.look]

/-- **Enumeration cursors miss nothing.**  Along any sweep from cursor 0 the keys received
    are strictly increasing; a key that was there at every call has been received when a
    call returns fewer keys than fit; a key that was there at no call is not received. -/
theorem enumeration_sweep (caller : Nat) (w : Walker) (vs : List Visit)
    (h : Sweeps caller w 0 vs) :
    (received vs).Pairwise (· < ·) ∧
    (∀ pre v post k, vs = pre ++ v :: post → v.values.length < v.cap → k ≠ 0 →
      (∀ u ∈ pre ++ [v], k ∈ w.keys caller u.moment) → (received (pre ++ [v])).count k = 1) ∧
    (∀ k, (∀ v ∈ vs, k ∉ w.keys caller v.moment) → k ∉ received vs) ∧
    ∀ pre v post, vs = pre ++ v :: post → v.values.length < v.cap →
      ∀ k ∈ w.keys caller v.moment, (received pre).getLast?.getD 0 < k → k ∈ v.values := by
  have hrun := h.run
  have hsorted := hrun.sorted.1
  rw [returned_look] at hsorted
  refine ⟨hsorted, ?_, ?_, ?_⟩
  · rintro pre v post k rfl hshort hk hstay
    have hpre : Sweep.Run 0 (pre.map (Visit.look caller w) ++ [v.look caller w]) := by
      rw [List.map_append, List.map_cons, List.append_cons] at hrun
      exact hrun.left
    have hlook : ∀ u ∈ pre.map (Visit.look caller w) ++ [v.look caller w], k ∈ u.elements := by
      rw [← List.map_singleton, ← List.map_append]
      intro u hu
      obtain ⟨u', hu', rfl⟩ := List.mem_map.mp hu
      exact hstay u' hu'
    have hmem := hpre.complete (Nat.pos_of_ne_zero hk) hlook hshort
    have hnodup := hpre.sorted.1.imp ne_of_lt
    have hreturned := returned_look caller w (pre ++ [v])
    rw [List.map_append, List.map_cons, List.map_nil] at hreturned
    rw [hreturned] at hmem hnodup
    exact List.count_eq_one_of_mem hnodup hmem
  · intro k hk hmem
    rw [← returned_look caller w] at hmem
    obtain ⟨u, hu, hin⟩ := hrun.present hmem
    obtain ⟨v, hv, rfl⟩ := List.mem_map.mp hu
    exact hk v hv hin
  · rintro pre v post rfl hshort k hk hafter
    rw [List.map_append, List.map_cons] at hrun
    obtain ⟨hkeys, hvalues⟩ := hrun.visit
    rw [returned_look] at hvalues
    rcases Sweep.mem_gather_or_lt v.cap hkeys hk hafter with hmem | ⟨hlen, -⟩
    · rw [show v.values = _ from hvalues]
      exact hmem
    · -- then the call would have returned as many as fit
      have hfull : v.values.length = v.cap := (congrArg List.length hvalues).trans hlen
      omega

def bootMoment : Moment := ⟨Kernel.boot ⟨[], [], []⟩ 1, fun _ => none, true⟩

theorem enumeration_sweep_init :
    Sweeps 1 (.threads 0) 0 [⟨bootMoment, 1, [1]⟩, ⟨bootMoment, 1, []⟩] ∧
      (received [⟨bootMoment, 1, [1]⟩, ⟨bootMoment, 1, []⟩]).count 1 = 1 := by
  have h : Sweeps 1 (.threads 0) 0 [⟨bootMoment, 1, [1]⟩, ⟨bootMoment, 1, []⟩] :=
    .cons rfl (.cons rfl (.nil 1))
  refine ⟨h, (enumeration_sweep 1 (.threads 0) _ h).2.1 [⟨bootMoment, 1, [1]⟩]
    ⟨bootMoment, 1, []⟩ [] 1 rfl Nat.zero_lt_one Nat.one_ne_zero ?_⟩
  intro u hu
  rcases List.mem_cons.mp hu with rfl | hu
  · decide
  · rw [List.mem_singleton.mp hu]
    decide

end GovinDos.Enumeration
