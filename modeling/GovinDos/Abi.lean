/-
  **Values that cross the kernel boundary (`abi/gdosabi`).**
-/
import Mathlib

namespace GovinDos

inductive SysErr where
  | NOSYS | FAULT | INVAL | NOMEM | EXIST | PERM | DEAD | AGAIN | TIMEDOUT
deriving DecidableEq, Repr

abbrev SysResult := Except SysErr Nat

structure Ksqe where
  op : Nat
  a : Nat
  b : Nat
  c : Nat
deriving DecidableEq, Repr

end GovinDos
