import Mathlib.Data.Finset.Piecewise
import Mathlib.Data.Finset.Range

/-!
# Code that stays inside of an array

An array without bounds shows no access that is out of bounds. But what stays inside
of the first `n` entries cannot tell what is behind them, and leaves it as it is: run
over anything else there, it does the same and gives that back.
-/

namespace MyLibs
namespace Foundation

variable {α : Type _} {n i : Nat} {a b junk : Nat -> α}

def padded (n : Nat) (a junk : Nat -> α) : Nat -> α :=
  (Finset.range n).piecewise a junk

theorem padded_of_lt (hi : i < n) : padded n a junk i = a i :=
  Finset.piecewise_eq_of_mem _ _ _ (Finset.mem_range.mpr hi)

theorem padded_of_le (hi : n <= i) : padded n a junk i = junk i :=
  Finset.piecewise_eq_of_notMem _ _ _ (fun hmem => absurd (Finset.mem_range.mp hmem) (by omega))

theorem padded_self (n : Nat) (a : Nat -> α) : padded n a a = a :=
  Finset.piecewise_same _ _

/-- Behind the entries nothing was written. -/
theorem eq_of_padded_eq (h : padded n b a = b) (hi : n <= i) : b i = a i :=
  calc b i = padded n b a i := by rw [h]
    _ = a i := padded_of_le hi

theorem update_padded (hi : i < n) (x : α) :
    Function.update (padded n a junk) i x = padded n (Function.update a i x) junk :=
  Finset.update_piecewise_of_mem _ a junk (Finset.mem_range.mpr hi) x

/-- The run goes the same way over any junk, and leaves it alone. -/
def Confined (n : Nat) (run : (Nat -> α) -> Option (Nat -> α)) (a : Nat -> α) : Prop :=
  forall junk, run (padded n a junk) = (run a).map fun b => padded n b junk

namespace Confined

variable {run : (Nat -> α) -> Option (Nat -> α)}

theorem modify (h : Confined n run a) (hi : i < n) (f : α -> α) :
    Confined n (fun a => (run a).map fun b => Function.update b i (f (b i))) a := by
  intro junk
  simp only [h junk]
  cases run a with
  | none => rfl
  | some b => simp only [Option.map_some, padded_of_lt hi, update_padded hi]

end Confined

end Foundation
end MyLibs
