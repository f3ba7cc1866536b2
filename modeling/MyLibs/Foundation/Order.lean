import Mathlib.Logic.Relation
import Mathlib.Tactic.Common

/-!
# Comparison functions

C containers order their elements with a comparison function whose sign is the
only part that matters. This module states what such a function must satisfy to
be a total preorder, and reads a strict order off its sign.
-/

namespace MyLibs
namespace Foundation

/-!
## Strict weak orders

`before a b` says that `a` is strictly before `b`; elements that are not
before each other in either direction are tied.
-/

/-- A strict order whose negation is transitive: ties are an equivalence. -/
structure StrictWeakOrder {α : Type _} (before : α -> α -> Prop) : Prop where
  asymm : forall a b, before a b -> ¬ before b a
  negTrans : forall a b c, ¬ before a b -> ¬ before b c -> ¬ before a c

namespace StrictWeakOrder

variable {α : Type _} {before : α -> α -> Prop}

theorem irrefl (h : StrictWeakOrder before) (a : α) : ¬ before a a := by
  intro haa
  exact h.asymm a a haa haa

theorem trans_notBefore (h : StrictWeakOrder before) {a b c : α}
    (hab : before a b) (hcb : ¬ before c b) : before a c := by
  by_contra hac
  exact h.negTrans a c b hac hcb hab

theorem trans (h : StrictWeakOrder before) {a b c : α}
    (hab : before a b) (hbc : before b c) : before a c :=
  h.trans_notBefore hab (h.asymm b c hbc)

theorem flip (h : StrictWeakOrder before) :
    StrictWeakOrder (fun a b => before b a) where
  asymm := fun a b hba => h.asymm b a hba
  negTrans := fun a b c hba hcb => h.negTrans c b a hcb hba

end StrictWeakOrder

/-!
## Signs of comparison functions
-/

structure TotalPreorder {α : Type _} (cmp : α -> α -> Int) : Prop where
  swap : forall a b, 0 < cmp a b <-> cmp b a < 0
  trans : forall a b c, cmp a b <= 0 -> cmp b c <= 0 -> cmp a c <= 0

namespace TotalPreorder

variable {α : Type _} {cmp : α -> α -> Int}

theorem self (h : TotalPreorder cmp) (a : α) : cmp a a = 0 := by
  have hswap := h.swap a a
  omega

theorem eq_zero_symm (h : TotalPreorder cmp) {a b : α}
    (hab : cmp a b = 0) : cmp b a = 0 := by
  have hswap := h.swap a b
  have hswap' := h.swap b a
  omega

theorem eq_zero_trans (h : TotalPreorder cmp) {a b c : α}
    (hab : cmp a b = 0) (hbc : cmp b c = 0) : cmp a c = 0 := by
  have hba := h.eq_zero_symm hab
  have hcb := h.eq_zero_symm hbc
  have hac := h.trans a b c (by omega) (by omega)
  have hca := h.trans c b a (by omega) (by omega)
  have hswap := h.swap c a
  omega

theorem lt_of_lt_of_le (h : TotalPreorder cmp) {a b c : α}
    (hab : cmp a b < 0) (hbc : cmp b c <= 0) : cmp a c < 0 := by
  have hac := h.trans a b c (by omega) hbc
  have hba := h.trans b c a hbc
  have hswap := h.swap b a
  have hca := h.swap c a
  have hac' := h.swap a c
  omega

theorem lt_of_le_of_lt (h : TotalPreorder cmp) {a b c : α}
    (hab : cmp a b <= 0) (hbc : cmp b c < 0) : cmp a c < 0 := by
  have hac := h.trans a b c hab (by omega)
  have hcb := h.trans c a b
  have hswap := h.swap c b
  have hca := h.swap c a
  have hac' := h.swap a c
  omega

theorem strictWeakOrder (h : TotalPreorder cmp) :
    StrictWeakOrder (fun a b => cmp a b < 0) where
  asymm := by
    intro a b hab hba
    have hswap := h.swap b a
    omega
  negTrans := by
    intro a b c hab hbc hac
    have hswapAb := h.swap b a
    have hswapBc := h.swap c b
    have hswapAc := h.swap c a
    have hca := h.trans c b a
    omega

end TotalPreorder

end Foundation
end MyLibs
