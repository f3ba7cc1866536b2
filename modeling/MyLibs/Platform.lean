import Mathlib.Algebra.Order.Ring.Nat
import Mathlib.Tactic.Common

/-!
# The C platform

Addresses and fixed-width sizes as the library's compiled code sees them: an
LP64 machine, with 32-bit `int` and `unsigned int` and 64-bit pointers.
-/

namespace MyLibs

abbrev Ptr := Nat

def NULL : Ptr := 0

/-- The value an `unsigned int` keeps of a natural number. -/
def uint (n : Nat) : Nat := n % 2 ^ 32

/-- The value a `size_t` keeps of a natural number. -/
def sizet (n : Nat) : Nat := n % 2 ^ 64

/-- Subtraction of `size_t` values. -/
def sizetSub (m n : Nat) : Nat := (m + (2 ^ 64 - n)) % 2 ^ 64

/-- `sizeof(void*)`. -/
def sizeofPtr : Nat := 8

theorem uint_of_lt {n : Nat} (h : n < 2 ^ 32) : uint n = n :=
  Nat.mod_eq_of_lt h

theorem uint_pred {n : Nat} (hpos : 0 < n) (h : n < 2 ^ 32) :
    uint (n + (2 ^ 32 - 1)) = n - 1 := by
  unfold uint
  omega

theorem sizetSub_of_le {m n : Nat} (hle : n <= m) (h : m < 2 ^ 64) :
    sizetSub m n = m - n := by
  unfold sizetSub
  omega

end MyLibs
