/-
  **What the thread library rests on (`pthread.c`, `gdosabi/syscall.h`).**

  The futex calls as `pthread.c` sees them: `FUTEX_WAIT` compares and parks in one step,
  `FUTEX_WAKE` releases the oldest of a word's queue, `FUTEX_REQUEUE` moves the oldest to the
  queue of another word, each at most a batch at a time.  A parked thread that is in no queue
  any more has been released.
-/
import Mathlib

namespace GovinDos.Pthread

def FUTEX_WAKE_BATCH : Nat := 16
def FUTEX_REQUEUE_BATCH : Nat := 16
def UINT64_MAX : Nat := 2 ^ 64 - 1

inductive Rc where
  | ok | EPERM | EAGAIN | EBUSY | EINVAL | EDEADLK | ETIMEDOUT
deriving DecidableEq, Repr

/-- How many threads `FUTEX_WAKE` releases, and `FUTEX_REQUEUE` moves, at most. -/
def wakeCap (count : Nat) : Nat := min count FUTEX_WAKE_BATCH

def requeueCap (count : Nat) : Nat := min count FUTEX_REQUEUE_BATCH

theorem drop_min {A : Type} {xs : List A} {cap : Nat} (h : min cap xs.length ≠ cap) :
    xs.drop (min cap xs.length) = [] := by
  rw [List.drop_eq_nil_iff]
  omega

structure Timespec where
  tv_sec : Int
  tv_nsec : Int

def abstimeToDeadline (abstime : Timespec) : Option UInt64 :=
  if abstime.tv_sec < 0 ∨ abstime.tv_nsec < 0 ∨ abstime.tv_nsec ≥ 1000000000 then none
  else
    let ns := UInt64.ofInt abstime.tv_sec * 1000000000 + UInt64.ofInt abstime.tv_nsec
    some (if ns = 0 then 1 else ns)

end GovinDos.Pthread
