/-
  **What the disk server does for its clients (`packages/nvmed/nvmed.c`).**

  A client may change its channel between any two loads, so each load of a step is a value
  of its own.  What a step does is written to a trace.
-/
import GovinDos.NvmeQueue

namespace GovinDos.Nvme

/-! ## 1. The model -/

def PAGE_SIZE : Nat := 4096
def DMA_PAGES : Nat := 16
def MAX_CLIENTS : Nat := 8

def NVME_IO_WRITE : Nat := 1
def NVME_IO_READ : Nat := 2

def GDOS_BLOCK_MAGIC : UInt64 := 0x314b4c424f444747
def GDOS_BLOCK_VERSION : UInt32 := 1
def GDOS_BLOCK_INFO : UInt32 := 1
def GDOS_BLOCK_READ : UInt32 := 2
def GDOS_BLOCK_WRITE : UInt32 := 3

inductive Status where
  | OK | BAD_VERSION | BAD_REQUEST | RANGE | IO_
deriving DecidableEq, Repr

inductive Field where
  | magic | version | header_bytes | request_seq | response_seq | op | status | lba | block_count
  | data_offset | data_length | capacity_blocks | logical_block_size | max_transfer_blocks
deriving DecidableEq, Repr

def Field.place : Field → Nat × Nat
  | .magic => (0, 8)
  | .version => (8, 4)
  | .header_bytes => (12, 4)
  | .request_seq => (16, 4)
  | .response_seq => (20, 4)
  | .op => (24, 4)
  | .status => (28, 4)
  | .lba => (32, 8)
  | .block_count => (40, 4)
  | .data_offset => (44, 4)
  | .data_length => (48, 4)
  | .capacity_blocks => (56, 8)
  | .logical_block_size => (64, 4)
  | .max_transfer_blocks => (68, 4)

def CHANNEL_SIZE : Nat := 72

structure Identify where
  nn : UInt32
  nsze : UInt64
  lbads : UInt8
  metadata_size : UInt16
  mdts : UInt8
  cap : UInt64

structure Device where
  dma : Nat
  capacity_blocks : Nat
  block_size : Nat
  max_transfer_blocks : Nat
deriving DecidableEq, Repr

def discoverNamespace (dma : Nat) (x : Identify) : Option Device :=
  if x.nn = 0 ∨ x.nsze = 0 then none
  else if x.metadata_size ≠ 0 ∨ x.lbads < 9 ∨ 12 < x.lbads then none
  else
    let block_size := 2 ^ x.lbads.toNat
    let most := 8 * PAGE_SIZE / block_size
    let dev (n : Nat) : Option Device :=
      if n ≠ 0 then some ⟨dma, x.nsze.toNat, block_size, n⟩ else none
    if x.mdts ≠ 0 ∧ x.mdts < 32 then
      let shift := 12 + x.cap.toNat / 2 ^ 48 % 16 + x.mdts.toNat
      if 63 ≤ shift then none
      else
        let blocks := 2 ^ shift / block_size
        dev (if blocks < most then blocks else most)
    else dev most

structure Client where
  channel : Nat
  bytes : Nat
  seen : UInt32
deriving DecidableEq, Repr

inductive Event where
  | touch (channel offset length : Nat) (data : Bool)
  /-- A command, with the pages that `prp2` stands for: itself for two, its list for more. -/
  | command (cmd : Command) (pages : List Nat)
  | published (channel : Nat) (seq : UInt32)
  | answered (channel : Nat) (seq : UInt32) (status : Status)
deriving DecidableEq, Repr

def Event.field (channel : Nat) (f : Field) : Event := .touch channel f.place.1 f.place.2 false

structure Header where
  magic : UInt64
  version : UInt32
  header_bytes : UInt32

def checkHeader (channel : Nat) (h : Header) : List Event × Bool :=
  if h.magic ≠ GDOS_BLOCK_MAGIC then ([.field channel .magic], false)
  else if h.version ≠ GDOS_BLOCK_VERSION then
    ([.field channel .magic, .field channel .version], false)
  else
    ([.field channel .magic, .field channel .version, .field channel .header_bytes],
      h.header_bytes.toNat = CHANNEL_SIZE)

structure Request extends Header where
  op : UInt32
  lba : UInt64
  block_count : UInt32
  data_offset : UInt32
  data_length : UInt32

def channelRange (bytes : Nat) (offset length : UInt32) : Bool :=
  let sum := (offset.toNat + length.toNat) % 2 ^ 64
  CHANNEL_SIZE ≤ offset.toNat && offset.toNat ≤ sum && sum ≤ bytes

def nvmeRw (dev : Device) (write : Bool) (lba : UInt64) (blocks : UInt32) : Event :=
  let bounce := dev.dma + 7 * PAGE_SIZE
  let pages := (blocks.toNat * dev.block_size + PAGE_SIZE - 1) / PAGE_SIZE
  .command
    { cdw0 := if write then NVME_IO_WRITE else NVME_IO_READ
      nsid := 1
      prp1 := bounce
      prp2 := if pages = 2 then bounce + PAGE_SIZE else if 2 < pages then dev.dma + 6 * PAGE_SIZE else 0
      cdw10 := lba.toNat % 2 ^ 32
      cdw11 := lba.toNat / 2 ^ 32
      cdw12 := (blocks.toNat + (2 ^ 32 - 1)) % 2 ^ 32 }
    ((List.range (pages - 1)).map fun i => bounce + (i + 1) * PAGE_SIZE)

/-- `serve_request` between its loads and its stores; `known` says that the header is
    right and `io` is what `nvme_rw` returns. -/
def transfer (dev : Device) (client : Client) (r : Request) (known io : Bool) : List Event × Status :=
  let wanted := r.block_count.toNat * dev.block_size
  let copy := Event.touch client.channel r.data_offset.toNat r.data_length.toNat true
  if known = false then ([], .BAD_VERSION)
  else if r.op ≠ GDOS_BLOCK_INFO ∧ r.op ≠ GDOS_BLOCK_READ ∧ r.op ≠ GDOS_BLOCK_WRITE then
    ([], .BAD_REQUEST)
  else if r.op = GDOS_BLOCK_INFO then ([], .OK)
  else if r.block_count = 0 ∨ dev.max_transfer_blocks < r.block_count.toNat ∨
      dev.capacity_blocks ≤ r.lba.toNat ∨
      dev.capacity_blocks - r.lba.toNat < r.block_count.toNat ∨ r.data_length.toNat ≠ wanted ∨
      channelRange client.bytes r.data_offset r.data_length = false then
    ([], .RANGE)
  else
    ((if r.op = GDOS_BLOCK_WRITE then [copy] else []) ++
        [nvmeRw dev (r.op = GDOS_BLOCK_WRITE) r.lba r.block_count] ++
        (if io = true ∧ r.op = GDOS_BLOCK_READ then [copy] else []),
      if io then .OK else .IO_)

def serveRequest (dev : Device) (client : Client) (seq : UInt32) (r : Request) (io : Bool) :
    List Event :=
  let ch := client.channel
  let (head, known) := checkHeader ch r.toHeader
  let (work, status) := transfer dev client r known io
  [.field ch .op, .field ch .lba, .field ch .block_count, .field ch .data_offset,
      .field ch .data_length] ++ head ++ work ++
    [.field ch .capacity_blocks, .field ch .logical_block_size, .field ch .max_transfer_blocks,
      .field ch .status, .field ch .response_seq, .answered ch seq status]

structure Server where
  clients : List Client
  trace : List Event
deriving DecidableEq, Repr

def Server.log (s : Server) (events : List Event) : Server := { s with trace := s.trace ++ events }

/-- `add_client`; a place with the channel 0 is free, and the share is dropped where
    none is. -/
def addClient (s : Server) (base order : Nat) (h : Header) (response_seq : UInt32) : Server :=
  let (head, known) := checkHeader base h
  if known = false ∨ base = 0 ∨ s.clients.any (·.channel = base) ∨ MAX_CLIENTS ≤ s.clients.length then
    s.log head
  else
    { s.log (head ++ [.field base .response_seq]) with
      clients := s.clients ++ [⟨base, PAGE_SIZE * 2 ^ order % 2 ^ 64, response_seq⟩] }

/-- The turns of `service_loop`: a `KEV_SHARE` with its second word, the channel of the
    setup page, the request word of a client. -/
inductive Turn where
  | share (b : Nat) (h : Header) (response_seq : UInt32)
  | service (channel : Nat) (h : Header) (response_seq : UInt32)
  | poll (i : Nat) (seq : UInt32) (r : Request) (io : Bool)

def turn (dev : Device) (s : Server) : Turn → Option Server
  | .share b h response_seq =>
    some (addClient s (b / PAGE_SIZE * PAGE_SIZE) (b % PAGE_SIZE % 2 ^ 8) h response_seq)
  | .service channel h response_seq => some (addClient s channel 0 h response_seq)
  | .poll i seq r io => match s.clients[i]? with
    | none => some s
    | some client =>
      let load := [.field client.channel .request_seq, .published client.channel seq]
      if seq = client.seen then some (s.log load)
      else some { s.log (load ++ serveRequest dev client seq r io) with
        clients := s.clients.set i { client with seen := seq } }

/-! ## 2. The channels -/

structure Shares where
  order : Nat → Option Nat
  placed : ∀ base o, order base = some o → base % PAGE_SIZE = 0 ∧ PAGE_SIZE * 2 ^ o < 2 ^ 64

def InPlace (w : Shares) (_ : Server) : Turn → Prop
  | .share b _ _ => ∃ base o, w.order base = some o ∧ b = base ||| o
  | .service channel _ _ => (w.order channel).isSome
  | .poll _ _ _ _ => True

def Event.Ok (w : Shares) (dev : Device) (P : Nat → UInt32 → Prop) : Event → Prop
  | .touch channel offset length data => ∃ o, w.order channel = some o ∧
      offset + length ≤ PAGE_SIZE * 2 ^ o ∧ (data = true → CHANNEL_SIZE ≤ offset)
  | .command cmd pages =>
      cmd.cdw10 + 2 ^ 32 * cmd.cdw11 + (cmd.cdw12 + 1) ≤ dev.capacity_blocks ∧
      (cmd.cdw12 + 1) * dev.block_size ≤ (DMA_PAGES - 7) * PAGE_SIZE ∧
      ∀ page ∈ cmd.prp1 :: pages, dev.dma + 7 * PAGE_SIZE ≤ page ∧
        page + PAGE_SIZE ≤ dev.dma + DMA_PAGES * PAGE_SIZE
  | .published _ _ => True
  | .answered channel seq _ => P channel seq

def Client.Ok (w : Shares) (c : Client) : Prop :=
  ∃ o, w.order c.channel = some o ∧ c.bytes ≤ PAGE_SIZE * 2 ^ o

def Server.Published (s : Server) (channel : Nat) (seq : UInt32) : Prop :=
  .published channel seq ∈ s.trace

structure Server.Ok (w : Shares) (dev : Device) (s : Server) : Prop where
  clients : ∀ c ∈ s.clients, c.Ok w
  trace : ∀ e ∈ s.trace, e.Ok w dev s.Published

section

variable {w : Shares} {dev : Device} {P : Nat → UInt32 → Prop} {s s' : Server} {ch o : Nat}

theorem discoverNamespace_fits {dma : Nat} {x : Identify} (h : discoverNamespace dma x = some dev) :
    dev.max_transfer_blocks * dev.block_size ≤ 8 * PAGE_SIZE := by
  have hmost : 8 * PAGE_SIZE / 2 ^ x.lbads.toNat * 2 ^ x.lbads.toNat ≤ 8 * PAGE_SIZE :=
    Nat.div_mul_le_self _ _
  simp only [discoverNamespace] at h
  repeat' split at h
  all_goals cases h
  · rename_i hlt _
    exact Nat.le_trans (Nat.mul_le_mul_right _ (Nat.le_of_lt hlt)) hmost
  · exact hmost
  · exact hmost

theorem Event.field_ok (h : w.order ch = some o) (f : Field) : (Event.field ch f).Ok w dev P := by
  have hend : f.place.1 + f.place.2 ≤ PAGE_SIZE := by cases f <;> decide
  exact ⟨o, h, Nat.le_trans hend (Nat.le_mul_of_pos_right _ (Nat.two_pow_pos o)), nofun⟩

theorem checkHeader_ok (h : w.order ch = some o) (head : Header) :
    ∀ e ∈ (checkHeader ch head).1, e.Ok w dev P := by
  intro e he
  unfold checkHeader at he
  repeat' split at he
  all_goals
    simp only [List.mem_cons, List.not_mem_nil, or_false] at he
    rcases he with rfl | rfl | rfl <;> exact Event.field_ok h _

theorem channelRange_spec {bytes : Nat} {offset length : UInt32}
    (h : channelRange bytes offset length ≠ false) :
    CHANNEL_SIZE ≤ offset.toNat ∧ offset.toNat + length.toNat ≤ bytes := by
  have hoffset := offset.toNat_lt
  have hlength := length.toNat_lt
  simp only [channelRange, ne_eq, Bool.not_eq_false, Bool.and_eq_true, decide_eq_true_eq] at h
  omega

theorem nvmeRw_ok (hfits : dev.max_transfer_blocks * dev.block_size ≤ 8 * PAGE_SIZE) (write : Bool)
    {lba : UInt64} {blocks : UInt32} (hpos : blocks ≠ 0)
    (hmost : blocks.toNat ≤ dev.max_transfer_blocks)
    (hend : lba.toNat + blocks.toNat ≤ dev.capacity_blocks) : (nvmeRw dev write lba blocks).Ok w dev P := by
  have hblocks := blocks.toNat_lt
  have hne : blocks.toNat ≠ 0 := fun h => hpos (UInt32.toNat_inj.mp h)
  have hbytes := Nat.le_trans (Nat.mul_le_mul_right dev.block_size hmost) hfits
  have hcount : (blocks.toNat + (2 ^ 32 - 1)) % 2 ^ 32 + 1 = blocks.toNat := by omega
  refine ⟨?_, ?_, fun page hpage => ?_⟩
  · simp only [hcount]
    omega
  · simp only [hcount, DMA_PAGES]
    exact Nat.le_trans hbytes (by decide)
  · rcases List.mem_cons.mp hpage with rfl | hlist
    · simp only [DMA_PAGES, PAGE_SIZE]
      omega
    · obtain ⟨i, hi, rfl⟩ := List.mem_map.mp hlist
      have hi := List.mem_range.mp hi
      simp only [DMA_PAGES, PAGE_SIZE] at hi hbytes ⊢
      omega

theorem transfer_ok (hfits : dev.max_transfer_blocks * dev.block_size ≤ 8 * PAGE_SIZE)
    {client : Client} (hc : client.Ok w) (r : Request) (known io : Bool) :
    ∀ e ∈ (transfer dev client r known io).1, e.Ok w dev P := by
  obtain ⟨o, ho, hbytes⟩ := hc
  intro e he
  simp only [transfer] at he
  split at he
  · cases he
  split at he
  · cases he
  split at he
  · cases he
  split at he
  · cases he
  rename_i hrange
  simp only [not_or, Nat.not_lt, Nat.not_le] at hrange
  obtain ⟨hpos, hmost, hlba, hend, -, hchannel⟩ := hrange
  obtain ⟨hdata, hlast⟩ := channelRange_spec hchannel
  have hcopy : (Event.touch client.channel r.data_offset.toNat r.data_length.toNat true).Ok w dev P :=
    ⟨o, ho, Nat.le_trans hlast hbytes, fun _ => hdata⟩
  rcases List.mem_append.mp he with he | he
  · rcases List.mem_append.mp he with he | he
    · split at he
      · rwa [List.mem_singleton.mp he]
      · cases he
    · rw [List.mem_singleton.mp he]
      exact nvmeRw_ok hfits _ hpos hmost (by omega)
  · split at he
    · rwa [List.mem_singleton.mp he]
    · cases he

theorem serveRequest_ok (hfits : dev.max_transfer_blocks * dev.block_size ≤ 8 * PAGE_SIZE)
    {client : Client} (hc : client.Ok w) {seq : UInt32} (hseq : P client.channel seq) (r : Request)
    (io : Bool) : ∀ e ∈ serveRequest dev client seq r io, e.Ok w dev P := by
  obtain ⟨o, ho, -⟩ := id hc
  have hfield : ∀ f, (Event.field client.channel f).Ok w dev P := Event.field_ok ho
  intro e he
  simp only [serveRequest] at he
  rcases List.mem_append.mp he with he | he
  · rcases List.mem_append.mp he with he | he
    · rcases List.mem_append.mp he with he | he
      · simp only [List.mem_cons, List.not_mem_nil, or_false] at he
        rcases he with rfl | rfl | rfl | rfl | rfl <;> exact hfield _
      · exact checkHeader_ok ho _ e he
    · exact transfer_ok hfits hc r _ io e he
  · simp only [List.mem_cons, List.not_mem_nil, or_false] at he
    rcases he with rfl | rfl | rfl | rfl | rfl | rfl
    all_goals first | exact hfield _ | exact hseq

theorem Server.Ok.log (h : s.Ok w dev) {events : List Event}
    (hevents : ∀ e ∈ events, e.Ok w dev (s.log events).Published) : (s.log events).Ok w dev where
  clients := h.clients
  trace e he := by
    rcases List.mem_append.mp he with hold | hnew
    · have hok := h.trace e hold
      cases e with
      | answered channel seq status => exact List.mem_append_left _ hok
      | _ => exact hok
    · exact hevents e hnew

theorem addClient_ok (h : s.Ok w dev) {base order : Nat} (ho : w.order base = some o)
    (hbytes : PAGE_SIZE * 2 ^ order % 2 ^ 64 ≤ PAGE_SIZE * 2 ^ o) (head : Header)
    (response_seq : UInt32) : (addClient s base order head response_seq).Ok w dev := by
  simp only [addClient]
  split
  · exact h.log (checkHeader_ok ho head)
  · have hlog := h.log (List.forall_mem_append.mpr ⟨checkHeader_ok ho head,
      List.forall_mem_singleton.mpr (Event.field_ok ho .response_seq)⟩)
    refine ⟨List.forall_mem_append.mpr ⟨h.clients, ?_⟩, hlog.trace⟩
    exact List.forall_mem_singleton.mpr ⟨o, ho, hbytes⟩

theorem share_word {base : Nat} (ho : w.order base = some o) :
    (base ||| o) / PAGE_SIZE * PAGE_SIZE = base ∧ (base ||| o) % PAGE_SIZE % 2 ^ 8 = o := by
  obtain ⟨halign, hsize⟩ := w.placed base o ho
  have hpow : 2 ^ o < 2 ^ 52 := by simp only [PAGE_SIZE] at hsize; omega
  have hlt : o < 52 := (Nat.pow_lt_pow_iff_right (by decide)).mp hpow
  have hbase : base = 2 ^ 12 * (base / 2 ^ 12) := by simp only [PAGE_SIZE] at halign; omega
  have hsum : base ||| o = base + o := by
    rw [hbase]
    exact (Nat.two_pow_add_eq_or_of_lt (by omega) _).symm
  rw [hsum]
  simp only [PAGE_SIZE] at halign ⊢
  omega

theorem turn_ok (hfits : dev.max_transfer_blocks * dev.block_size ≤ 8 * PAGE_SIZE) (h : s.Ok w dev)
    {op : Turn} (hop : InPlace w s op) (hstep : turn dev s op = some s') : s'.Ok w dev := by
  cases op with
  | share b head response_seq =>
    cases hstep
    obtain ⟨base, o, ho, rfl⟩ := hop
    obtain ⟨hbase, horder⟩ := share_word ho
    rw [hbase, horder]
    exact addClient_ok h ho (Nat.mod_le _ _) head response_seq
  | service channel head response_seq =>
    cases hstep
    obtain ⟨o, ho⟩ := Option.isSome_iff_exists.mp hop
    refine addClient_ok h ho (Nat.le_trans (Nat.mod_le _ _) ?_) head response_seq
    exact Nat.mul_le_mul_left _ (Nat.pow_le_pow_right (by decide) (Nat.zero_le o))
  | poll i seq r io =>
    simp only [turn] at hstep
    split at hstep
    · cases hstep
      exact h
    · rename_i client hclient
      have hc := h.clients client (List.mem_of_getElem? hclient)
      obtain ⟨o, ho, hbytes⟩ := id hc
      have hload : ∀ P, ∀ e ∈ [Event.field client.channel .request_seq, .published client.channel seq],
          e.Ok w dev P := by
        intro P e he
        simp only [List.mem_cons, List.not_mem_nil, or_false] at he
        rcases he with rfl | rfl
        · exact Event.field_ok ho _
        · trivial
      split at hstep
      · cases hstep
        exact h.log (hload _)
      · cases hstep
        have hlog := h.log (List.forall_mem_append.mpr ⟨hload _, serveRequest_ok hfits hc
          (List.mem_append_right _ (List.mem_append_left _ (List.mem_cons_of_mem _
            (List.mem_singleton_self _)))) r io⟩)
        refine ⟨fun c hmem => ?_, hlog.trace⟩
        rcases List.mem_or_eq_of_mem_set hmem with hold | rfl
        · exact h.clients c hold
        · exact ⟨o, ho, hbytes⟩

/-- For every content of the channels at every load: what the server touches for a client
    lies in the client's channel, and behind the header where it copies data; a command
    stays below the size of the namespace and inside the bounce pool. -/
theorem server_keeps_to_channels {dma : Nat} {x : Identify} {ops : List Turn}
    (hdev : discoverNamespace dma x = some dev)
    (hrun : Run (turn dev) (InPlace w) ⟨[], []⟩ ops s) : ∀ e ∈ s.trace, e.Ok w dev s.Published := by
  have hok : s.Ok w dev := hrun.invariant (P := Server.Ok w dev) ⟨nofun, nofun⟩
    fun _ _ _ h hop hstep => turn_ok (discoverNamespace_fits hdev) h hop hstep
  exact hok.trace

theorem server_keeps_to_channels_write : ∃ (w : Shares) (dev : Device) (s : Server),
    discoverNamespace 0x100000 ⟨1, 64, 9, 0, 0, 0⟩ = some dev ∧
    .touch 0x8000 4096 512 true ∈ s.trace ∧ .answered 0x8000 1 .OK ∈ s.trace ∧
    ∀ e ∈ s.trace, e.Ok w dev s.Published := by
  let w : Shares := ⟨fun base => if base = 0x8000 then some 1 else none, by
    intro base o h
    split at h
    · cases h
      subst base
      decide
    · cases h⟩
  let head : Header := ⟨GDOS_BLOCK_MAGIC, GDOS_BLOCK_VERSION, 72⟩
  let write : Request := ⟨head, GDOS_BLOCK_WRITE, 63, 1, 4096, 512⟩
  let dev : Device := ⟨0x100000, 64, 512, 64⟩
  obtain ⟨s, hrun, htouch, hanswer⟩ : ∃ s : Server,
      Run (turn dev) (InPlace w) ⟨[], []⟩ [.share 0x8001 head 0, .poll 0 1 write true] s ∧
      .touch 0x8000 4096 512 true ∈ s.trace ∧ .answered 0x8000 1 .OK ∈ s.trace := by
    apply Run.exists_of_eval
    · simp only [List.forall_mem_cons, List.not_mem_nil, false_imp_iff, implies_true, and_true]
      exact ⟨fun _ => ⟨0x8000, 1, rfl, rfl⟩, fun _ => trivial⟩
    · decide +kernel
  have hdev : discoverNamespace 0x100000 ⟨1, 64, 9, 0, 0, 0⟩ = some dev := by decide +kernel
  exact ⟨w, dev, s, hdev, htouch, hanswer, server_keeps_to_channels hdev hrun⟩

end

end GovinDos.Nvme
