/-
  **What the commands copy in and out of the ring block.**

  The commands of the cap, irq and iommu schemes take 64-bit offsets into the block, and some
  of what they copy in holds offsets again.  Here each is a program that copies record by
  record.  Over a block that stands still the programs of the first two schemes are the
  commands of `Capability` and `Irq`.
-/
import GovinDos.IrqRoute
import GovinDos.Lib.CopyProg

namespace GovinDos.Channel

open Capability (CapToken TokenHead SubgrantReq QueryReq QueryResult CAP_TOKEN_SIZE
  SUBGRANT_REQ_SIZE QUERY_REQ_SIZE QUERY_RESULT_SIZE)

/-! ## 1. Records -/

structure AttachReq where
  domain : Nat
  token_off : Nat
  token_len : Nat
  fault_cookie : Nat

def ATTACH_REQ_SIZE : Nat := 32

inductive Rec
  | token
  | subgrant_req
  | query_req
  | query_result
  | attach_req
deriving DecidableEq, Repr

def Rec.size : Rec → Nat
  | .token => CAP_TOKEN_SIZE
  | .subgrant_req => SUBGRANT_REQ_SIZE
  | .query_req => QUERY_REQ_SIZE
  | .query_result => QUERY_RESULT_SIZE
  | .attach_req => ATTACH_REQ_SIZE

def Rec.Val : Rec → Type
  | .token => CapToken
  | .subgrant_req => SubgrantReq
  | .query_req => QueryReq
  | .query_result => QueryResult
  | .attach_req => AttachReq

abbrev Command (α : Type) := CopyProg Rec.Val α

def ringRange (bytes off len : Nat) : Bool := off ≤ bytes && len ≤ bytes - off

section cap

variable (mac : TokenHead → BitVec 128) (routes : Nat → Option (Nat × Nat)) (bytes : Nat)

def resolveRing (s : Capability.State) (off len : Nat) (need_live : Bool) (type : Nat) :
    Command (Option (Except SysErr Capability.Ptr)) :=
  if len ≠ CAP_TOKEN_SIZE ∨ !ringRange bytes off len then .done (some (.error .INVAL))
  else .copyIn .token off fun token =>
    .done (Capability.tokenResolve mac s token need_live type)

def capVerifyRingLocked (s : Capability.State) (off len type : Nat) :
    Command (Option (Except SysErr Capability.Ptr)) :=
  resolveRing mac bytes s off len true type

def subgrantExec (s : Capability.State) (sqe : Ksqe) (slab : Option Capability.Ptr) :
    Command (Option (Capability.State × Capability.Reply)) :=
  if sqe.b ≠ 0 ∨ !ringRange bytes sqe.a SUBGRANT_REQ_SIZE ∨ !ringRange bytes sqe.c CAP_TOKEN_SIZE then
    .done (some (s, .of (.error .INVAL)))
  else .copyIn .subgrant_req sqe.a fun req =>
    (capVerifyRingLocked mac bytes s req.token_off req.token_len 0).bind fun
      | none => .done none
      | some (.error e) => .done (some (s, .of (.error e)))
      | some (.ok parent) =>
        match Capability.subgrant mac routes s req parent slab with
        | none => .done none
        | some (s, .error e) => .done (some (s, .of (.error e)))
        | some (s, .ok token) =>
          .copyOut .token sqe.c token
            (.done (some (s, ⟨.ok 0, some token, none, some token.grant_id_le⟩)))

def revokeExec (s : Capability.State) (sqe : Ksqe) :
    Command (Option (Capability.State × Capability.Reply)) :=
  if sqe.b ≠ CAP_TOKEN_SIZE ∨ !ringRange bytes sqe.a sqe.b then
    .done (some (s, .of (.error .INVAL)))
  else .copyIn .token sqe.a fun token =>
    match Capability.tokenResolve mac s token false 0 with
    | none => .done none
    | some (.error e) => .done (some (s, .of (.error e)))
    | some (.ok target) => .done ((Capability.revokeStep s target).map fun (s, rc) => (s, .of rc))

def queryExec (s : Capability.State) (sqe : Ksqe) :
    Command (Option (Capability.State × Capability.Reply)) :=
  if !ringRange bytes sqe.a QUERY_REQ_SIZE ∨ !ringRange bytes sqe.c QUERY_RESULT_SIZE then
    .done (some (s, .of (.error .INVAL)))
  else .copyIn .query_req sqe.a fun req =>
    (resolveRing mac bytes s req.token_off req.token_len false 0).bind fun
      | none => .done none
      | some (.error e) => .done (some (s, .of (.error e)))
      | some (.ok p) =>
        match s.heap.get p, Capability.queryLive s (Capability.KCAP_MAX_DEPTH + 1) (some p) with
        | some g, some live =>
          .copyOut .query_result sqe.c (Capability.queryResult g live)
            (.done (some (s, ⟨.ok 0, none, some (Capability.queryResult g live), none⟩)))
        | _, _ => .done none

def capExec (s : Capability.State) (sqe : Ksqe) (slab : Option Capability.Ptr) :
    Command (Option (Capability.State × Capability.Reply)) :=
  if sqe.op = Capability.KCAP_SUBGRANT then subgrantExec mac routes bytes s sqe slab
  else if sqe.op = Capability.KCAP_REVOKE then revokeExec mac bytes s sqe
  else if sqe.op = Capability.KCAP_QUERY then queryExec mac bytes s sqe
  else .done (some (s, .of (.error .NOSYS)))

end cap

/-! ## 3. The irq scheme -/

section irq

variable (mac : TokenHead → BitVec 128) (bytes : Nat) (ans : Irq.Answers)

def allocateMsiOnRing (s : Irq.State) (ring : Nat) (sqe : Ksqe) :
    Command (Option (Irq.State × Irq.Reply)) :=
  (capVerifyRingLocked mac bytes s.cap sqe.a sqe.b Capability.KCAP_GRANT_IRQ_ROUTE).bind fun
    | none => .done none
    | some (.error e) => .done (some (s, .of (.error e)))
    | some (.ok parent) =>
      if !ringRange bytes sqe.c CAP_TOKEN_SIZE then .done (some (s, .of (.error .INVAL)))
      else match s.rings.get ring with
        | none => .done none
        | some r =>
          if r.full then .done (some (s, .of (.error .NOMEM)))
          else match Irq.freeSlot s with
            | none => .done (some (s, .of (.error .NOMEM)))
            | some i =>
              let taken := s.allocate ring r i
              let id := Irq.routeId (taken.g_routes i)
              match Capability.capCreateIrqRouteLocked mac s.cap parent i id ans.slab with
              | none => .done none
              | some (cap, .error e) =>
                .done (some ({ taken.abandon ring r i with cap := cap }, .of (.error e)))
              | some (cap, .ok token) =>
                .copyOut .token sqe.c token
                  (.done (some ({ taken with cap := cap }, ⟨.ok 0, some token, some id, none⟩)))

def verified (s : Irq.State) (sqe : Ksqe) : Command (Option (Except SysErr Capability.Grant)) :=
  (capVerifyRingLocked mac bytes s.cap sqe.a sqe.b Capability.KCAP_GRANT_IRQ_ROUTE).bind fun
    | none => .done none
    | some (.error e) => .done (some (.error e))
    | some (.ok p) => .done ((s.cap.heap.get p).map .ok)

def irqExec (s : Irq.State) (ring : Nat) (sqe : Ksqe) : Command (Option (Irq.State × Irq.Reply)) :=
  if sqe.op = Irq.KIRQ_CLAIM then
    (verified mac bytes s sqe).bind fun
      | none => .done none
      | some (.error e) => .done (some (s, .of (.error e)))
      | some (.ok g) => .done (Irq.claim ans s ring (Irq.capIrqRoute s g) sqe.c)
  else if sqe.op = Irq.KIRQ_RELEASE then .done (Irq.release s ring sqe.a)
  else if sqe.op = Irq.KIRQ_ACK then .done (some (Irq.ack ans s ring sqe.a sqe.b))
  else if sqe.op = Irq.KIRQ_MSI then allocateMsiOnRing mac bytes ans s ring sqe
  else if sqe.op = Irq.KIRQ_MSI_ADDR then
    (verified mac bytes s sqe).bind fun
      | none => .done none
      | some (.error e) => .done (some (s, .of (.error e)))
      | some (.ok g) => .done (some (s, Irq.msiAddress s (Irq.capIrqRoute s g)))
  else .done (some (s, .of (.error .NOSYS)))

end irq

/-! ## 4. The iommu scheme -/

section iommu

variable (mac : TokenHead → BitVec 128) (bytes : Nat) (d : Domains)

end iommu

/-! ## 5. Over a block that stands still -/

/-- A block as `Capability` reads it.  Results are only copied out, and that scheme
    has no attach requests; what stands in their place is never copied in. -/
def memory (ring : Capability.Ring) : ∀ r : Rec, Nat → r.Val
  | .token, off => ring.token off
  | .subgrant_req, off => ring.subgrant_req off
  | .query_req, off => ring.query_req off
  | .query_result, _ => (⟨0, 0, 0, 0, 0, 0, false, false⟩ : QueryResult)
  | .attach_req, _ => (⟨0, 0, 0, 0⟩ : AttachReq)

section still

variable (mac : TokenHead → BitVec 128) (routes : Nat → Option (Nat × Nat)) (ring : Capability.Ring)

variable (ans : Irq.Answers)

end still

/-! ## 6. Over a hostile block -/

section hostile

variable (mac : TokenHead → BitVec 128) (routes : Nat → Option (Nat × Nat)) (bytes : Nat)

end hostile

end GovinDos.Channel
