/-
  **No assert fails, and which pointers may be stale.**

  A CPU that has won a node has it under the address it works on, the nodes in the buckets
  are older than the next arrival number, and `thread_pins` counts the threads that will
  complete into a block.
-/
import Mathlib
import GovinDos.ThreadInvariant

namespace GovinDos.Thread

open Kernel (Status)
open Occurrence Function

variable {hash : Nat → Nat} {op : Op} {s s' : State} {c t : Nat} {b b' u p : Nat} {k key : FutexKey}
  {x : Tcb}

/-! ## 1. Keys -/

def Work.Keyed : Work → Prop
  | .unhook addr _ _ _ key _ => key.address = addr
  | .relink src _ _ _ _ key _ => key.address = src
  | _ => True

structure Keys (s : State) : Prop where
  keyed : ∀ c, (s.cpu c).work.Keyed
  old : ∀ b key t, (s.waiters b).get key = some t → key.seq < s.g_futex_seq

theorem Keys.goto (h : Keys s) {s₁ : State} {w : Work} (hcpu : s₁.cpu = s.cpu) (hw : w.Keyed)
    (hold : ∀ b key t, (s₁.waiters b).get key = some t → key.seq < s₁.g_futex_seq) :
    Keys (s₁.goto c w) where
  keyed := fun d => by
    simp only [State.goto, hcpu]
    by_cases hd : d = c
    · subst hd
      rwa [update_self]
    · rw [update_of_ne hd]
      exact h.keyed d
  old := hold

theorem Keys.switch (h : Keys s) {s₁ : State} {x : Ctx} (hcpu : s₁.cpu = s.cpu)
    (hold : ∀ b key t, (s₁.waiters b).get key = some t → key.seq < s₁.g_futex_seq) :
    Keys (s₁.switch c x) where
  keyed := fun d => by
    simp only [State.switch, hcpu]
    by_cases hd : d = c
    · subst hd
      rw [update_self]
      exact h.keyed d
    · rw [update_of_ne hd]
      exact h.keyed d
  old := hold

theorem get_eraseNode
    (h : ((s.eraseNode b k).waiters b').get key = some t) : (s.waiters b').get key = some t := by
  by_cases hb : b' = b
  · subst hb
    simp only [State.eraseNode, State.setWaiters, update_self] at h
    exact (OrdMap.get_erase_eq_some_iff.mp h).2
  · simpa [State.eraseNode, State.setWaiters, hb] using h

theorem get_insertNode
    (h : ((s.insertNode b k u).waiters b').get key = some t) :
    key = k ∧ t = u ∨ (s.waiters b').get key = some t := by
  by_cases hb : b' = b
  · subst hb
    by_cases hkey : key = k
    · left
      refine ⟨hkey, ?_⟩
      simpa [State.insertNode, State.setWaiters, hkey, eq_comm] using h
    · right
      simpa [State.insertNode, State.setWaiters, OrdMap.get_set_of_ne _ _ hkey] using h
  · right
    simpa [State.insertNode, State.setWaiters, hb] using h

theorem Keys.old_insertNode {s₁ : State} {b addr u : Nat}
    (hold : ∀ b key t, (s₁.waiters b).get key = some t → key.seq < s₁.g_futex_seq) (b' : Nat)
    (key : FutexKey)
    (h : ((s₁.insertNode b ⟨addr, s₁.g_futex_seq⟩ u).waiters b').get key = some t) :
    key.seq < s₁.g_futex_seq + 1 := by
  rcases get_insertNode h with ⟨rfl, -⟩ | hget
  · exact Nat.lt_succ_self _
  · exact Nat.lt_succ_of_lt (hold b' key t hget)

theorem Unhooks.keyed {w w' : Work} (h : Unhooks t w w') : w'.Keyed := by cases h <;> trivial

theorem Cancels.keyed {w w' : Work} (h : Cancels t w w') : w'.Keyed := by cases h <;> trivial

theorem Move.keys (h : Keys s) (hmove : Move hash op s s') : Keys s' := by
  cases hmove with
  | refused | spawn | spawnPinned | kill | store | memory => exact ⟨h.keyed, h.old⟩
  | pop | cull | install | trap | sysret | yield | exit | block | switched | wait | mismatch
  | prevStatus | exited => exact h.switch rfl h.old
  | exitedPublish c t =>
    have hsw : Keys ((s.setUmem (some c)).switch c (.closing t)) := h.switch rfl h.old
    exact hsw.goto rfl trivial h.old
  | close c t x =>
    refine h.switch (cpu_unpin s x) fun b key u hget => ?_
    have hget : ((unpin s x).waiters b).get key = some u := hget
    rw [waiters_unpin] at hget
    exact (g_futex_seq_unpin s x).symm ▸ h.old b key u hget
  | noNode => exact h.switch rfl fun b key u hget => Nat.lt_succ_of_lt (h.old b key u hget)
  | rollback c t addr expected deadline x hctx hx m hm =>
    refine h.switch rfl fun b key u hget => Nat.lt_succ_of_lt (h.old b key u ?_)
    by_cases hb : b = hash addr
    · subst hb
      rw [← hm]
      simpa [State.setTcb, State.setWaiters] using hget
    · simpa [State.setTcb, State.setWaiters, State.bumpSeq, hb] using hget
  | park | parkTimed => exact h.switch rfl fun b key u hget => Keys.old_insertNode h.old b key hget
  | callWake | post | callRequeue | callInterrupt | callDestroy | wake | publish | skip | detached
  | finished | settleDead | settleLive | unblock | release | enqueue | requeue | requeueAgain
  | scanSkip | scanned | interrupt | time | timeSkip | expired | popDeadline | giveUp | victim
  | victimOff | victimBlocked | doom | claim => exact h.goto rfl (by trivial) h.old
  | pick c addr cap next_seq batch key t x hwork hnext
  | moving c src dst cap next_seq moved key t x hwork hnext =>
    exact h.goto rfl (nextWaiter_spec hnext).1 h.old
  | unhook => exact h.goto rfl trivial fun b key u hget => h.old b key u (get_eraseNode hget)
  | removeNode c t x w hwork =>
    exact h.goto rfl hwork.keyed fun b key u hget => h.old b key u (get_eraseNode hget)
  | cancelNone c t x w hwork | cancel c t x w hwork =>
    exact h.goto rfl hwork.keyed h.old
  | relink c src dst cap next_seq moved key t =>
    have hold (b : Nat) (k : FutexKey) (u : Nat)
        (hget : ((s.eraseNode (hash src) key).waiters b).get k = some u) : k.seq < s.g_futex_seq :=
      h.old b k u (get_eraseNode hget)
    exact h.goto rfl trivial fun b k u hget => Keys.old_insertNode hold b k hget
  | free c t x =>
    refine h.goto (cpu_unpin s x) trivial fun b key u hget => ?_
    have hget : ((unpin s x).waiters b).get key = some u := hget
    rw [waiters_unpin] at hget
    exact (g_futex_seq_unpin s x).symm ▸ h.old b key u hget

theorem boot_keys (word : Nat → UInt32) : Keys (boot word) := ⟨fun _ => trivial, nofun⟩

/-! ## 2. Completion pins -/

def State.pin (s : State) (t : Nat) : Option (Nat × Nat) :=
  (s.thread t).bind fun x => x.completion_block.map (·, x.proc)

def State.pinners (s : State) (b : Nat) : Finset Nat :=
  (Finset.range s.g_next_tid).filter fun t => (s.pin t).map (·.1) = some b

structure Ublock.Reserved (blk : Ublock) (p : Nat) : Prop where
  owner : blk.owner = p
  ring : blk.ring = false
  sharers : blk.sharers = 0
  writable : blk.writable = true

structure Pins (s : State) : Prop where
  reserved : ∀ t b p, s.pin t = some (b, p) → ∃ blk, s.block b = some blk ∧ blk.Reserved p
  count : ∀ b blk, s.block b = some blk → blk.thread_pins = (s.pinners b).card

theorem pin_eq (hx : s.thread t = some x) :
    s.pin t = x.completion_block.map (·, x.proc) := by
  simp [State.pin, hx]

theorem mem_pinners : t ∈ s.pinners b ↔ t < s.g_next_tid ∧ ∃ p, s.pin t = some (b, p) := by
  simp [State.pinners]

theorem Pins.keep (h : Pins s) (hpin : s'.pin = s.pin) (hblock : s'.block = s.block)
    (hnext : s'.g_next_tid = s.g_next_tid) : Pins s' where
  reserved := by rw [hpin, hblock]; exact h.reserved
  count := by
    have hpinners (b : Nat) : s'.pinners b = s.pinners b := by
      unfold State.pinners
      rw [hpin, hnext]
    simpa [hblock, hpinners] using h.count

theorem pin_setTcb {s₁ : State} {x y : Tcb} (hthread : s₁.thread = s.thread) (hx : s.thread t = some x)
    (hproc : y.proc = x.proc) (hblock : y.completion_block = x.completion_block) :
    (s₁.setTcb t (some y)).pin = s.pin := by
  funext u
  by_cases hu : u = t
  · subst hu
    simp [State.pin, State.setTcb, hx, hproc, hblock]
  · simp [State.pin, State.setTcb, hu, hthread]

theorem MemoryCall.run_pinned {call : MemoryCall} {blk : Ublock} {o : Option Ublock}
    (h : call.run (some blk) = some o) (hpins : blk.thread_pins ≠ 0) (hres : blk.Reserved p) :
    o = some blk := by
  obtain ⟨owner, pins, sharers, ring, writable⟩ := blk
  obtain rfl : sharers = 0 := hres.sharers
  cases call <;> simp_all [MemoryCall.run]

theorem MemoryCall.run_pins {call : MemoryCall} {o : Option Ublock} {blk blk' : Ublock}
    (h : call.run o = some (some blk')) (ho : o = some blk) :
    blk'.thread_pins = blk.thread_pins := by
  subst ho
  cases call <;> simp_all [MemoryCall.run] <;> grind

theorem Inv.made (hinv : Inv hash s) (hx : s.thread t = some x) : t < s.g_next_tid := by
  by_contra hmade
  have hnone : s.thread t = none := ((hinv.ok t).fresh hmade).gone.tcb
  cases hnone.symm.trans hx

theorem pin_addThread (p target : Nat) (completion : Option (Nat × Nat)) :
    (addThread s p target completion).pin =
      update s.pin s.g_next_tid (completion.map fun i => (i.1, p)) := by
  funext u
  by_cases hu : u = s.g_next_tid
  · subst hu
    cases completion <;> simp [State.pin, addThread, State.push, State.setQueue, State.setTcb, threadNew]
  · simp [State.pin, addThread, State.push, State.setQueue, State.setTcb, hu]

theorem pinners_addThread (p target : Nat) (completion : Option (Nat × Nat)) (b : Nat) :
    (addThread s p target completion).pinners b =
      if completion.map (·.1) = some b then insert s.g_next_tid (s.pinners b) else s.pinners b := by
  ext u
  have hnext : (addThread s p target completion).g_next_tid = s.g_next_tid + 1 := rfl
  rw [mem_pinners, hnext, pin_addThread]
  by_cases hu : u = s.g_next_tid
  · subst hu
    have hmem : s.g_next_tid ∉ s.pinners b := by simp [mem_pinners]
    cases completion with
    | none => simpa using hmem
    | some i =>
      by_cases hi : i.1 = b <;> simp [hi, hmem]
  · have hlt : u < s.g_next_tid + 1 ↔ u < s.g_next_tid := by omega
    rw [update_of_ne hu, hlt, ← mem_pinners]
    split <;> simp [hu]

theorem Pins.release (h : Pins s) (hx : s.thread t = some x) (ht : t < s.g_next_tid)
    (hthread : s'.thread = update (unpin s x).thread t none)
    (hblock : s'.block = (unpin s x).block) (hnext : s'.g_next_tid = (unpin s x).g_next_tid) :
    Pins s' := by
  rw [thread_unpin] at hthread
  rw [g_next_tid_unpin] at hnext
  have hpin (u : Nat) : s'.pin u = if u = t then none else s.pin u := by
    by_cases hu : u = t <;> simp [State.pin, hthread, hu]
  have hpinners (b : Nat) : s'.pinners b = (s.pinners b).erase t := by
    ext u
    by_cases hu : u = t <;> simp [mem_pinners, hpin, hnext, hu]
  have hother (b : Nat) (hb : x.completion_block ≠ some b) : s'.block b = s.block b := by
    rw [hblock]
    unfold unpin
    split
    · rfl
    · rename_i b' hb'
      have hne : b ≠ b' := fun heq => hb (heq ▸ hb')
      simp [State.setBlock, hne]
  have hself (b : Nat) (hb : x.completion_block = some b) :
      s'.block b = (s.block b).map fun blk => { blk with thread_pins := blk.thread_pins - 1 } := by
    rw [hblock]
    simp [unpin, hb, State.setBlock]
  refine ⟨fun u b p hu => ?_, fun b blk hb => ?_⟩
  · rw [hpin] at hu
    split at hu
    · cases hu
    · obtain ⟨blk, hblk, hres⟩ := h.reserved u b p hu
      by_cases hb : x.completion_block = some b
      · have hblk' := hself b hb
        rw [hblk] at hblk'
        exact ⟨_, hblk', hres.owner, hres.ring, hres.sharers, hres.writable⟩
      · exact ⟨blk, by rw [hother b hb, hblk], hres⟩
  · rw [hpinners]
    by_cases hcb : x.completion_block = some b
    · rw [hself b hcb] at hb
      obtain ⟨blk', hblk', rfl⟩ := Option.map_eq_some_iff.mp hb
      have hmem : t ∈ s.pinners b := mem_pinners.mpr ⟨ht, x.proc, by simp [pin_eq hx, hcb]⟩
      rw [Finset.card_erase_of_mem hmem, ← h.count b blk' hblk']
    · rw [hother b hcb] at hb
      have hmem : t ∉ s.pinners b := by simp [mem_pinners, pin_eq hx, hcb]
      rw [Finset.erase_eq_of_notMem hmem]
      exact h.count b blk hb

theorem Inv.mem_pinners (hinv : Inv hash s) (h : s.pin t = some (b, p)) :
    t ∈ s.pinners b := by
  obtain ⟨x, hx, -⟩ := Option.bind_eq_some_iff.mp h
  exact Thread.mem_pinners.mpr ⟨hinv.made hx, p, h⟩

theorem Pins.thread_pins_ne_zero (h : Pins s) (hinv : Inv hash s) {blk : Ublock}
    (hpin : s.pin t = some (b, p)) (hb : s.block b = some blk) : blk.thread_pins ≠ 0 := by
  rw [h.count b blk hb]
  exact Finset.card_ne_zero_of_mem (hinv.mem_pinners hpin)

theorem Pins.spawn (h : Pins s) (p target : Nat) :
    Pins (addThread s p target none) := by
  refine ⟨fun u b q hu => ?_, fun b blk hb => ?_⟩
  · rw [pin_addThread] at hu
    by_cases hn : u = s.g_next_tid
    · simp [hn] at hu
    · rw [update_of_ne hn] at hu
      exact h.reserved u b q hu
  · rw [pinners_addThread]
    simpa using h.count b blk hb

theorem Pins.spawnPinned (h : Pins s) {blk : Ublock} (p target event : Nat)
    (hb : s.block b = some blk) (hres : blk.Reserved p) :
    Pins (addThread (s.setBlock b (some { blk with thread_pins := blk.thread_pins + 1 })) p target
      (some (b, event))) := by
  set s₀ := s.setBlock b (some { blk with thread_pins := blk.thread_pins + 1 }) with hs₀
  have hblock : (addThread s₀ p target (some (b, event))).block = s₀.block := rfl
  have hself : s₀.block b = some { blk with thread_pins := blk.thread_pins + 1 } := by
    simp [hs₀, State.setBlock]
  have hother (b' : Nat) (hne : b' ≠ b) : s₀.block b' = s.block b' := by
    simp [hs₀, State.setBlock, hne]
  refine ⟨fun u b' q hu => ?_, fun b' blk' hb' => ?_⟩
  · rw [pin_addThread] at hu
    rw [hblock]
    by_cases hn : u = s₀.g_next_tid
    · subst hn
      rw [update_self] at hu
      cases hu
      exact ⟨_, hself, hres.owner, hres.ring, hres.sharers, hres.writable⟩
    · rw [update_of_ne hn] at hu
      obtain ⟨blk', hblk', hres'⟩ := h.reserved u b' q hu
      by_cases hbb : b' = b
      · subst hbb
        obtain rfl := Option.some_inj.mp (hb.symm.trans hblk')
        exact ⟨_, hself, hres'.owner, hres'.ring, hres'.sharers, hres'.writable⟩
      · exact ⟨blk', (hother b' hbb).trans hblk', hres'⟩
  · rw [hblock] at hb'
    rw [pinners_addThread]
    have hpinners : s₀.pinners = s.pinners := rfl
    by_cases hbb : b' = b
    · subst hbb
      obtain rfl := Option.some_inj.mp (hself.symm.trans hb')
      have hnew : s₀.g_next_tid ∉ s₀.pinners b' := by simp [Thread.mem_pinners]
      rw [if_pos (by simp), Finset.card_insert_of_notMem hnew, hpinners, ← h.count b' blk hb]
    · rw [if_neg (by simpa using fun heq => hbb heq.symm), hpinners]
      exact h.count b' blk' ((hother b' hbb).symm.trans hb')

theorem Pins.memory (h : Pins s) (hinv : Inv hash s) {call : MemoryCall}
    {o : Option Ublock} (hrun : call.run (s.block b) = some o) : Pins (s.setBlock b o) := by
  have hself : (s.setBlock b o).block b = o := by simp [State.setBlock]
  have hother (b' : Nat) (hne : b' ≠ b) : (s.setBlock b o).block b' = s.block b' := by
    simp [State.setBlock, hne]
  refine ⟨fun u b' p hu => ?_, fun b' blk hb => ?_⟩
  · obtain ⟨blk, hblk, hres⟩ := h.reserved u b' p hu
    by_cases hbb : b' = b
    · subst hbb
      rw [hblk] at hrun
      obtain rfl := call.run_pinned hrun (h.thread_pins_ne_zero hinv hu hblk) hres
      exact ⟨blk, hself, hres⟩
    · exact ⟨blk, (hother b' hbb).trans hblk, hres⟩
  · change blk.thread_pins = (s.pinners b').card
    by_cases hbb : b' = b
    · subst hbb
      obtain rfl := hself.symm.trans hb
      cases hblk : s.block b' with
      | some blk₀ => rw [MemoryCall.run_pins hrun hblk, h.count b' blk₀ hblk]
      | none =>
        -- a new block, and no thread was reserved for it
        have hempty : s.pinners b' = ∅ := by
          refine Finset.eq_empty_of_forall_notMem fun u hu => ?_
          obtain ⟨-, p, hpin⟩ := Thread.mem_pinners.mp hu
          obtain ⟨blk', hblk', -⟩ := h.reserved u b' p hpin
          cases hblk.symm.trans hblk'
        rw [hblk] at hrun
        rw [hempty]
        cases call <;> simp_all [MemoryCall.run]
        simp [← hrun]
    · exact h.count b' blk ((hother b' hbb).symm.trans hb)

theorem Move.pins (hinv : Inv hash s) (h : Pins s) (hmove : Move hash op s s') : Pins s' := by
  cases hmove with
  | spawn p target => exact h.spawn p target
  | spawnPinned p target b event blk humem hlive hb howner hring hsharers hwritable =>
    exact h.spawnPinned p target event hb ⟨howner, hring, hsharers, hwritable⟩
  | memory b call o hrun => exact h.memory hinv hrun
  | close c t x hctx hwork hx | free c t x hwork hx => exact h.release hx (hinv.made hx) rfl rfl rfl
  | cull | install | yield | exit | block | switched | rollback | park | parkTimed | pick | cancel
  | settleDead | unblock | release | moving | relink | time | popDeadline | claim =>
    refine h.keep (pin_setTcb rfl ‹_› ?_ ?_) rfl rfl <;> rfl
  | _ => exact h.keep rfl rfl rfl

theorem boot_pins (word : Nat → UInt32) : Pins (boot word) := ⟨nofun, nofun⟩

/-! ## 3. Outcomes -/

structure Clean {α : Type} (φ : Prop) (x : Except Stop α) : Prop where
  assert : x ≠ .error .assert
  fault : φ → x ≠ .error .fault

def Tracked (s : State) : Prop :=
  ∀ t, s.thread t = none →
    (s.view t).seat = nowhere ∧ (s.view t).linger = nowhere ∧ (s.view t).watch = nowhere

/-! ## 4. Every step -/

structure Sound (hash : Nat → Nat) (s : State) : Prop where
  inv : Inv hash s
  keys : Keys s
  pins : Pins s

theorem boot_sound (word : Nat → UInt32) : Sound hash (boot word) :=
  ⟨boot_inv word, boot_keys word, boot_pins word⟩

theorem Sound.of_run {ok : State → Op → Prop} {ops : List Op} (hrun : Run (step hash) ok s ops s')
    (h : Sound hash s) : Sound hash s' :=
  hrun.invariant h fun _ _ _ h _ hstep =>
    have hmove := step_move hstep
    ⟨hmove.inv h.inv, hmove.keys h.keys, hmove.pins h.inv h.pins⟩

theorem Inv.held (hinv : Inv hash s) {st : Stage} (hst : (t, st) ∈ (s.cpu c).work.holds) :
    ∃ x phase hooked queued seated,
      Life hash t (s.view t) x (some (c, st)) phase hooked queued seated :=
  (hinv.ok t).shape.of_hold (hinv.hold_eq hst)

theorem Life.get_node {holder : Option (Nat × Stage)} {phase : Phase}
    {queued : Option Nat} {seated : Option (Nat × Seat)}
    (h : Life hash t (s.view t) x holder phase true queued seated) :
    (s.waiters (hash x.wait_key.address)).get x.wait_key = some t := by
  have hmem : (hash x.wait_key.address, x.wait_key) ∈ (s.view t).nodes := by
    rw [h.nodes]
    rfl
  exact hmem

theorem Inv.get_picked (hinv : Inv hash s)
    (hst : (t, .picked key) ∈ (s.cpu c).work.holds) :
    (s.waiters (hash key.address)).get key = some t := by
  obtain ⟨x, phase, hooked, queued, seated, h⟩ := hinv.held hst
  cases h.fits with
  | picked => exact h.get_node

theorem Inv.get_moving (hinv : Inv hash s)
    (hst : (t, .moving key) ∈ (s.cpu c).work.holds) :
    (s.waiters (hash key.address)).get key = some t := by
  obtain ⟨x, phase, hooked, queued, seated, h⟩ := hinv.held hst
  cases h.fits with
  | moving => exact h.get_node

theorem Inv.get_timed (hinv : Inv hash s) {key : TdeadlineKey}
    (hst : (t, .timed key) ∈ (s.cpu c).work.holds) : (s.deadlines c).get key = some t := by
  obtain ⟨x, phase, hooked, queued, seated, h⟩ := hinv.held hst
  have hentries := h.entries
  cases h.fits with
  | timed hs hd =>
    have hmem : (x.deadline_cpu, (⟨x.deadline, t⟩ : TdeadlineKey)) ∈ (s.view t).entries := by
      rw [hentries, Wait.due, if_neg hd]
      rfl
    exact hmem

theorem Inv.get_hooked (hinv : Inv hash s) {st : Stage} (hx : s.thread t = some x)
    (hst : (t, st) ∈ (s.cpu c).work.holds) (hor : st = .expired ∨ st = .hooked) :
    (s.waiters (hash x.wait_key.address)).get x.wait_key = some t := by
  obtain ⟨y, phase, hooked, queued, seated, h⟩ := hinv.held hst
  obtain rfl := Option.some_inj.mp (h.tcb.symm.trans hx)
  rcases hor with rfl | rfl
  · cases h.fits with
    | expired => exact h.get_node
  · cases h.fits with
    | hooked => exact h.get_node

theorem Inv.checked (hinv : Inv hash s) (hx : s.thread t = some x)
    (hst : (t, .checked) ∈ (s.cpu c).work.holds) (hcpu : x.on_cpu = false) :
    x.status = .BLOCKED ∧ x.wake_state = .CLAIMED := by
  obtain ⟨y, phase, hooked, queued, seated, h⟩ := hinv.held hst
  obtain rfl := Option.some_inj.mp (h.tcb.symm.trans hx)
  have hstand := h.stand
  cases h.fits with
  | checked _ hs hd =>
    cases hstand with
    | blocked hstatus => exact ⟨hstatus, hs⟩
    | parking _ _ hon | leaving _ _ hon => cases hcpu.symm.trans hon

theorem Points.tcb (hp : Points s c t) (hinv : Inv hash s) (h : Tracked s) :
    ∃ x, s.thread t = some x := by
  refine Option.ne_none_iff_exists'.mp fun hnone => ?_
  obtain ⟨hseat, hlinger, hwatch⟩ := h t hnone
  have hgone : Gone (s.view t) := by
    cases (hinv.ok t).shape with
    | gone h => exact h
    | life x holder phase hooked queued seated h => cases hnone.symm.trans h.tcb
  cases hp with
  | @node b key hget =>
    have hmem : (b, key) ∈ (s.view t).nodes := hget
    simp [hgone.nodes] at hmem
  | @entry key hget =>
    have hmem : (c, key) ∈ (s.view t).entries := hget
    simp [hgone.entries] at hmem
  | queue hq => exact sole_ne_nowhere ((hinv.queue_cons hq).1.symm.trans hgone.queue)
  | seat hctx hr =>
    have hc := congrFun hseat c
    simp [State.view, hctx, hr] at hc
  | linger hctx hr =>
    have hc := congrFun hlinger c
    simp [State.view, hctx, hr] at hc
  | hold hst => exact sole_ne_nowhere ((hinv.hold_eq hst).symm.trans hgone.hold)
  | watch hwork hr =>
    have hc := congrFun hwatch c
    simp [State.view, hwork, hr] at hc

theorem Sound.not_breaks (h : Sound hash s) : ¬ Breaks hash s c := by
  have hkeyed := h.keys.keyed c
  rintro (⟨hwork, hne⟩ | ⟨hwork, hx, hne⟩ | ⟨hwork, hx, hcpu, hne⟩ | ⟨hwork, hne⟩ | hget |
    ⟨hwork, hne⟩ | ⟨hx, hb, hpins⟩)
  · rw [hwork] at hkeyed
    exact hne (hkeyed ▸ h.inv.get_picked (c := c) (by simp [hwork, Work.holds]))
  · obtain ⟨st, st', hp, hor⟩ := hwork.passes
    exact hne (h.inv.get_hooked hx hp.mem (hor.imp And.left And.left))
  · exact hne (h.inv.checked (c := c) hx (by simp [hwork, Work.holds]) hcpu)
  · rw [hwork] at hkeyed
    exact hne (hkeyed ▸ h.inv.get_moving (c := c) (by simp [hwork, Work.holds]))
  · -- the new number is above all that are in the buckets
    exact absurd (h.keys.old _ _ _ (get_eraseNode hget)) (lt_irrefl _)
  · exact hne (h.inv.get_timed (c := c) (by simp [hwork, Work.holds]))
  · have hpin := (pin_eq hx).trans (by rw [hb])
    obtain ⟨blk, hblk, hres⟩ := h.pins.reserved _ _ _ hpin
    exact h.pins.thread_pins_ne_zero h.inv hpin hblk (hpins blk hblk hres.owner)

theorem exec_clean (h : Sound hash s) (op : Op) : Clean (Tracked s) (exec hash s op) := by
  obtain ⟨c, hgoes⟩ := exec_goes hash op s
  refine ⟨fun hassert => h.not_breaks (hgoes.assert hassert), fun htracked hfault => ?_⟩
  obtain ⟨t, hp, hnone⟩ := hgoes.fault hfault
  obtain ⟨x, hx⟩ := hp.tcb h.inv htracked
  cases hnone.symm.trans hx

end GovinDos.Thread
