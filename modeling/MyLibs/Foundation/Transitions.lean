import Mathlib.Logic.Relation

/-!
# Runs of a step relation

Two rules about a system given by its steps: one finds a run to a final state,
the other a run of an abstract system behind every run of a concrete one.
-/

namespace MyLibs
namespace Foundation

/-!
## Reaching a final state
-/

section Progress

variable {σ : Type _} {step : σ -> σ -> Prop} {inv final : σ -> Prop}

/-- If some steps lower the measure of every state that is not final, a run leads
to one that is. -/
theorem exists_final_run (measure : σ -> Nat)
    (hprogress : forall s, inv s -> ¬ final s ->
      exists s', Relation.ReflTransGen step s s' ∧ inv s' ∧ measure s' < measure s)
    {s : σ} (h : inv s) :
    exists s', Relation.ReflTransGen step s s' ∧ inv s' ∧ final s' := by
  -- on the bound of the measure
  have hbounded : forall n s, measure s < n -> inv s ->
      exists s', Relation.ReflTransGen step s s' ∧ inv s' ∧ final s' := by
    intro n
    induction n with
    | zero =>
        intro s hs
        exact absurd hs (Nat.not_lt_zero _)
    | succ n ih =>
        intro s hs hinv
        by_cases hfinal : final s
        · exact ⟨s, Relation.ReflTransGen.refl, hinv, hfinal⟩
        · rcases hprogress s hinv hfinal with ⟨next, hsteps, hnext, hlower⟩
          rcases ih next (Nat.lt_of_lt_of_le hlower (Nat.le_of_lt_succ hs)) hnext with
            ⟨last, hrest, hlast⟩
          exact ⟨last, hsteps.trans hrest, hlast⟩
  exact hbounded (measure s + 1) s (Nat.lt_succ_self _) h

end Progress

/-!
## Simulation
-/

section Simulation

variable {σ α : Type _}

/-- Every step of the concrete system shows as a step of the abstract one, or does
not show at all. -/
structure Simulates (step : σ -> σ -> Prop) (abstract : α -> α -> Prop)
    (inv : σ -> Prop) (shows : σ -> α -> Prop) : Prop where
  keeps : forall {s s'}, inv s -> step s s' -> inv s'
  step : forall {s s' a}, inv s -> step s s' -> shows s a ->
    exists a', shows s' a' ∧ (a' = a ∨ abstract a a')

variable {step : σ -> σ -> Prop} {abstract : α -> α -> Prop} {inv : σ -> Prop}
  {shows : σ -> α -> Prop}

/-- Behind a run of the concrete system there is a run of the abstract one. -/
theorem Simulates.run (h : Simulates step abstract inv shows) {s s' : σ} {a : α}
    (hinv : inv s) (hshows : shows s a) (hrun : Relation.ReflTransGen step s s') :
    inv s' ∧ exists a', shows s' a' ∧ Relation.ReflTransGen abstract a a' := by
  induction hrun with
  | refl => exact ⟨hinv, a, hshows, Relation.ReflTransGen.refl⟩
  | tail _ hstep ih =>
      rcases ih with ⟨hinv, a', hshows, hrun⟩
      rcases h.step hinv hstep hshows with ⟨next, hnext, hsame | habstract⟩
      · rw [hsame] at hnext
        exact ⟨h.keeps hinv hstep, a', hnext, hrun⟩
      · exact ⟨h.keeps hinv hstep, next, hnext, hrun.tail habstract⟩

end Simulation

end Foundation
end MyLibs
