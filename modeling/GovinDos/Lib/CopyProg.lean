/-
  **Programs that copy records in and out of memory they do not trust.**

  What a copy brings is not up to the program.  `Inside` says that every record it may touch
  lies in the first `n` bytes, whatever the earlier copies brought.
-/
import Mathlib

inductive CopyProg {R : Type} (Val : R → Type) (α : Type) : Type
  | done (a : α)
  | copyIn (r : R) (off : Nat) (next : Val r → CopyProg Val α)
  | copyOut (r : R) (off : Nat) (v : Val r) (next : CopyProg Val α)

namespace CopyProg

variable {R : Type} {Val : R → Type} {α β : Type}

def bind : CopyProg Val α → (α → CopyProg Val β) → CopyProg Val β
  | .done a, f => f a
  | .copyIn r off next, f => .copyIn r off fun v => (next v).bind f
  | .copyOut r off v next, f => .copyOut r off v (next.bind f)

def Inside (size : R → Nat) (n : Nat) : CopyProg Val α → Prop
  | .done _ => True
  | .copyIn r off next => off + size r ≤ n ∧ ∀ v, (next v).Inside size n
  | .copyOut r off _ next => off + size r ≤ n ∧ next.Inside size n

inductive Trace : CopyProg Val α → List (R × Nat) → α → Prop
  | done (a : α) : Trace (.done a) [] a
  | copyIn {r : R} {off : Nat} {next : Val r → CopyProg Val α} {touched : List (R × Nat)} {a : α}
      (v : Val r) (h : Trace (next v) touched a) :
      Trace (.copyIn r off next) ((r, off) :: touched) a
  | copyOut {r : R} {off : Nat} {v : Val r} {next : CopyProg Val α} {touched : List (R × Nat)} {a : α}
      (h : Trace next touched a) : Trace (.copyOut r off v next) ((r, off) :: touched) a

variable {size : R → Nat} {n : Nat}

theorem Inside.trace {p : CopyProg Val α} {touched : List (R × Nat)} {a : α}
    (hp : p.Inside size n) (h : Trace p touched a) :
    ∀ c ∈ touched, c.2 + size c.1 ≤ n := by
  induction h with
  | done a => simp
  | copyIn v _ ih =>
    intro c hc
    rcases List.mem_cons.mp hc with rfl | hc
    · exact hp.1
    · exact ih (hp.2 v) c hc
  | copyOut _ ih =>
    intro c hc
    rcases List.mem_cons.mp hc with rfl | hc
    · exact hp.1
    · exact ih hp.2 c hc

end CopyProg
