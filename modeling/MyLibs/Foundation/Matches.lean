import Mathlib.Tactic.Common

/-!
# Computations that go alike

Two computations that meet the same fault, or give related results.
-/

namespace MyLibs
namespace Foundation

variable {ε α β α' β' : Type _}

inductive Matches (R : α -> β -> Prop) : Except ε α -> Except ε β -> Prop
  | ok {a : α} {b : β} (h : R a b) : Matches R (.ok a) (.ok b)
  | error (e : ε) : Matches R (.error e) (.error e)

namespace Matches

variable {R : α -> β -> Prop} {S : α' -> β' -> Prop} {x : Except ε α} {y : Except ε β}

theorem bind {f : α -> Except ε α'} {g : β -> Except ε β'} (h : Matches R x y)
    (hnext : forall a b, R a b -> Matches S (f a) (g b)) : Matches S (x >>= f) (y >>= g) := by
  cases h with
  | ok h => exact hnext _ _ h
  | error e => exact .error e

theorem bind_same {f : α -> Except ε α'} {g : α -> Except ε β'}
    (hnext : forall a, Matches S (f a) (g a)) : Matches S (x >>= f) (x >>= g) := by
  cases x with
  | ok a => exact hnext a
  | error e => exact .error e

theorem mono {R' : α -> β -> Prop} (h : Matches R x y) (hsub : forall a b, R a b -> R' a b) :
    Matches R' x y := by
  cases h with
  | ok h => exact .ok (hsub _ _ h)
  | error e => exact .error e

theorem exists_ok {a : α} (h : Matches R x y) (hx : x = .ok a) : exists b, y = .ok b ∧ R a b := by
  subst hx
  cases h with
  | ok h => exact ⟨_, rfl, h⟩

end Matches

end Foundation
end MyLibs
