/-
  **Share edges and their events (`kernel/src/umem.c`, `schemes/shares.c`).**

  An edge with a clear `notified` bit is an event that waits: the graph shows a board of
  announcements, and every section is one turn of it.  `replayPosts` and `sharePosts` are the
  events that go out on the way.
-/
import GovinDos.KernelMoves

namespace GovinDos.Ownership

open LinkedList Announcement Kernel Paging
open Umem (BlockId EdgeRef Backing)

/-! ## 1. Events -/

def notifyPosts (g : State) (e : EdgeRef) (room : Bool) : List ShareEvent :=
  if ((g.mem e.to_).anchor .SHARES).isSome && room then (keventShare g e).toList else []

def sharePosts (tab : ProcTable) (g : State) (p base target : Nat) (prot : PagingFlags)
    (nodes room : Bool) : List ShareEvent :=
  match (g.mem p).blocks.get base, umemShare tab g p base target prot nodes room with
  | some id, .ok (g', .ok _) => notifyPosts g' ⟨id, target⟩ room
  | _, _ => []

/-! ## 2. Sections -/

section

variable {g g' : State} {b : Board EdgeRef Nat} {r : SysResult} {tab : ProcTable}
  {p base target : Nat} {nodes room : Bool}

theorem Shared.announces {prot : PagingFlags} (h : Shared g p base target room b g' r)
    (hcore : Core g) (hx : umemShare tab g p base target prot nodes room = .ok (g', r)) :
    Announces b (sharePosts tab g p base target prot nodes room) g' := by
  unfold sharePosts
  rw [hx]
  cases h with
  | refused hb e =>
    cases (g.mem p).blocks.get base <;> exact .keep hb
  | made hid hnone hheap hb =>
    rename_i id
    obtain ⟨blk, hblk, -⟩ := (hcore.owned p base id).mp hid
    have hevent : keventShare g' ⟨id, target⟩ = some ⟨⟨id, target⟩, blk.owner,
        blk.base ||| blk.order⟩ := by
      simp [keventShare, hheap, hblk]
    simp only [hid, notifyPosts]
    split at hb
    · rename_i hroom
      refine ⟨_, ?_, hb, ?_⟩
      · simpa [hroom, hevent] using Turn.makeTell hnone
      · simp [hroom, hevent]
    · rename_i hroom
      refine ⟨_, ?_, hb, ?_⟩
      · simpa [hroom] using Turn.make hnone
      · simp [hroom]

theorem replayPosts_edges (h : Shows g b) (hcore : Core g) (room q : Nat) :
    ∃ g', sharesReplay room g q = .ok g' ∧
      Shows g' (b.tellAll ((b.queue q).take room)) ∧ Still g g' ∧
      replayPosts room g q = ((b.queue q).take room).filterMap (keventShare g) ∧
      (replayPosts room g q).map ShareEvent.edge = (b.queue q).take room := by
  obtain ⟨g', hrun, hshows, hstill, hposts⟩ := h.replay hcore room q
  refine ⟨g', hrun, hshows, hstill, hposts, ?_⟩
  rw [hposts, List.map_filterMap]
  have hall : ∀ l : List EdgeRef, (∀ y ∈ l, (g.heap y.block).isSome) →
      l.filterMap (fun y => (keventShare g y).map ShareEvent.edge) = l := by
    intro l hl
    induction l with
    | nil => rfl
    | cons y ys ih =>
      obtain ⟨blk, hblk⟩ := Option.isSome_iff_exists.mp (hl y (by simp))
      have hhead : (keventShare g y).map ShareEvent.edge = some y := by simp [keventShare, hblk]
      rw [List.filterMap_cons, hhead, ih fun z hz => hl z (by simp [hz])]
  apply hall
  intro y hy
  exact hcore.edged y (h.unnotified (List.mem_of_mem_take hy)).2

theorem sharesReplay_announces (h : Shows g b) (hcore : Core g) (room q : Nat)
    (hx : sharesReplay room g q = .ok g') : Announces b (replayPosts room g q) g' := by
  obtain ⟨g₁, hrun, hshows, hstill, hposts, hedges⟩ := replayPosts_edges h hcore room q
  cases hx.symm.trans hrun
  refine ⟨_, ?_, hshows, ?_⟩
  · rw [hedges]
    exact .replay q room
  · intro x hx
    rw [hposts, List.mem_filterMap] at hx
    obtain ⟨e, -, he⟩ := hx
    have hedge : x.edge = e := by
      obtain ⟨blk, -, rfl⟩ := Option.map_eq_some_iff.mp he
      rfl
    rw [hedge, ← he, keventShare, keventShare, hstill.heap]

theorem setDmaMaps_same (g : State) (id : BlockId) (dma_maps : Nat) :
    SameEdges g (setDmaMaps g id dma_maps) := by
  unfold setDmaMaps
  split
  · exact .refl g
  · exact .setBlock _ _

end

end GovinDos.Ownership

namespace GovinDos.Kernel

open Ownership

/-! ## 3. The events of a step -/

def callPosts (s : State) (th : Thread) (env : Env) : Call → List ShareEvent
  | .vmShare base target prot =>
    sharePosts s.links s.own th.proc base target prot env.nodes env.room
  | .vmScheme base scheme => match channelSchemeCreate s.own th.proc base scheme, scheme with
    | .ok (own, .ok _), some .SHARES => replayPosts env.rooms own th.proc
    | _, _ => []
  | .drain base => match ((s.own.mem th.proc).blocks.get base).bind fun id => s.own.heap id with
    | some ⟨_, _, _, _, _, _, _, some .SHARES, _, _⟩ => replayPosts env.rooms s.own th.proc
    | _ => []
  | _ => []

def posts (s : State) : Op → List ShareEvent
  | .advance c env => match (s.cpu c).job with
    | .call t call => ((s.thread t).map fun th => callPosts s th env call).getD []
    | _ => []
  | _ => []

end GovinDos.Kernel
