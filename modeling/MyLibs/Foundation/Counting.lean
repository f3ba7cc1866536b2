import Mathlib.Data.Fintype.Card
import Mathlib.Data.Finset.Card
import Mathlib.Tactic.Common

/-!
# Counting threads

How many members of a finite family satisfy a predicate, and how that number
moves when one member changes. Concurrent invariants relate shared counters to
such numbers.
-/

namespace MyLibs
namespace Foundation

variable {ι : Type _} [Fintype ι] {α : Type _}

def countWhere (p : α -> Bool) (f : ι -> α) : Nat :=
  (Finset.univ.filter fun i => p (f i) = true).card

theorem countWhere_le_card (p : α -> Bool) (f : ι -> α) :
    countWhere p f <= Fintype.card ι :=
  Finset.card_le_univ _

theorem countWhere_lt_card {p : α -> Bool} {f : ι -> α} {i : ι}
    (h : p (f i) = false) : countWhere p f < Fintype.card ι := by
  apply Finset.card_lt_univ_of_notMem (x := i)
  simp [h]

theorem countWhere_congr {p : α -> Bool} {f g : ι -> α}
    (h : forall i, p (f i) = p (g i)) : countWhere p f = countWhere p g := by
  unfold countWhere
  congr 1
  apply Finset.filter_congr
  intro i _hi
  rw [h i]

theorem countWhere_const_false {p : α -> Bool} {x : α} (h : p x = false) :
    countWhere p (fun _ : ι => x) = 0 := by
  simp [countWhere, h]

theorem countWhere_pos {p : α -> Bool} {f : ι -> α} {i : ι}
    (h : p (f i) = true) : 0 < countWhere p f := by
  apply Finset.card_pos.mpr
  exact ⟨i, Finset.mem_filter.mpr ⟨Finset.mem_univ i, h⟩⟩

theorem exists_of_countWhere_pos {p : α -> Bool} {f : ι -> α}
    (h : 0 < countWhere p f) : exists i, p (f i) = true := by
  rcases Finset.card_pos.mp h with ⟨i, hi⟩
  exact ⟨i, (Finset.mem_filter.mp hi).right⟩

/-!
## One member changes
-/

variable [DecidableEq ι]

theorem countWhere_update_enter {p : α -> Bool} {f : ι -> α} {i : ι} {x : α}
    (hold : p (f i) = false) (hnew : p x = true) :
    countWhere p (Function.update f i x) = countWhere p f + 1 := by
  have hset : (Finset.univ.filter fun j => p (Function.update f i x j) = true) =
      insert i (Finset.univ.filter fun j => p (f j) = true) := by
    ext j
    by_cases hji : j = i
    · simp [hji, hnew]
    · simp [hji]
  unfold countWhere
  rw [hset, Finset.card_insert_of_notMem]
  simp [hold]

theorem countWhere_update_same {p : α -> Bool} {f : ι -> α} {i : ι} {x : α}
    (h : p x = p (f i)) :
    countWhere p (Function.update f i x) = countWhere p f := by
  apply countWhere_congr
  intro j
  by_cases hji : j = i
  · simp [hji, h]
  · simp [Function.update_of_ne hji]

theorem countWhere_update_leave {p : α -> Bool} {f : ι -> α} {i : ι} {x : α}
    (hold : p (f i) = true) (hnew : p x = false) :
    countWhere p (Function.update f i x) + 1 = countWhere p f := by
  have hback := countWhere_update_enter (p := p)
    (f := Function.update f i x) (i := i) (x := f i)
    (by simp [hnew]) hold
  rw [Function.update_idem, Function.update_eq_self] at hback
  exact hback.symm

end Foundation
end MyLibs
