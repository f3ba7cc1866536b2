import Mathlib.Data.List.Count
import Mathlib.Logic.Function.Basic

/-!
# Ownership ledgers

Some slots hold objects. A ledger notes which objects were made, stored into a
slot, freed and used, the newest first.
-/

namespace MyLibs
namespace Foundation

inductive Mark (ρ : Type) where
  | made (r : ρ)
  | stored (r : ρ)
  | freed (r : ρ)
  | used (r : ρ)
deriving DecidableEq

variable {ρ ι : Type} {r s : ρ} {marks : List (Mark ρ)}

def Live (r : ρ) : List (Mark ρ) -> Prop
  | [] => False
  | .made s :: marks => s = r ∨ Live r marks
  | .freed s :: marks => s ≠ r ∧ Live r marks
  | .stored _ :: marks => Live r marks
  | .used _ :: marks => Live r marks

def Held (r : ρ) : List (Mark ρ) -> Prop
  | [] => False
  | .stored s :: marks => s = r ∨ Held r marks
  | .freed s :: marks => s ≠ r ∧ Held r marks
  | .made _ :: marks => Held r marks
  | .used _ :: marks => Held r marks

/-- Only live objects are stored and used, and only stored ones are freed, once for
each time they are stored. -/
def Proper : List (Mark ρ) -> Prop
  | [] => True
  | .made _ :: marks => Proper marks
  | .stored r :: marks => Live r marks ∧ Proper marks
  | .freed r :: marks => Held r marks ∧ Proper marks
  | .used r :: marks => Live r marks ∧ Proper marks

structure Ledger (marks : List (Mark ρ)) (slots : ι -> Option ρ) : Prop where
  proper : Proper marks
  held : forall i r, slots i = some r -> Held r marks
  alone : forall i j r, slots i = some r -> slots j = some r -> i = j

/-!
## Marks
-/

instance decidableLive [DecidableEq ρ] (r : ρ) : (marks : List (Mark ρ)) -> Decidable (Live r marks)
  | [] => inferInstanceAs (Decidable False)
  | .made s :: marks =>
      have := decidableLive r marks
      inferInstanceAs (Decidable (s = r ∨ Live r marks))
  | .freed s :: marks =>
      have := decidableLive r marks
      inferInstanceAs (Decidable (s ≠ r ∧ Live r marks))
  | .stored _ :: marks => decidableLive r marks
  | .used _ :: marks => decidableLive r marks

instance decidableHeld [DecidableEq ρ] (r : ρ) : (marks : List (Mark ρ)) -> Decidable (Held r marks)
  | [] => inferInstanceAs (Decidable False)
  | .stored s :: marks =>
      have := decidableHeld r marks
      inferInstanceAs (Decidable (s = r ∨ Held r marks))
  | .freed s :: marks =>
      have := decidableHeld r marks
      inferInstanceAs (Decidable (s ≠ r ∧ Held r marks))
  | .made _ :: marks => decidableHeld r marks
  | .used _ :: marks => decidableHeld r marks

instance decidableProper [DecidableEq ρ] : (marks : List (Mark ρ)) -> Decidable (Proper marks)
  | [] => inferInstanceAs (Decidable True)
  | .made _ :: marks => decidableProper marks
  | .stored r :: marks =>
      have := decidableProper marks
      inferInstanceAs (Decidable (Live r marks ∧ Proper marks))
  | .freed r :: marks =>
      have := decidableProper marks
      inferInstanceAs (Decidable (Held r marks ∧ Proper marks))
  | .used r :: marks =>
      have := decidableProper marks
      inferInstanceAs (Decidable (Live r marks ∧ Proper marks))

theorem Proper.live_of_held (hproper : Proper marks) (hheld : Held r marks) : Live r marks := by
  induction marks with
  | nil => exact hheld
  | cons mark marks ih =>
      cases mark with
      | made s => exact Or.inr (ih hproper hheld)
      | stored s =>
          cases hheld with
          | inl heq => exact heq ▸ hproper.left
          | inr hheld => exact ih hproper.right hheld
      | freed s => exact ⟨hheld.left, ih hproper.right hheld.right⟩
      | used s => exact ih hproper.right hheld

/-- Objects are freed at most as often as they are stored, and less often while they
are held. -/
theorem Proper.freed_le_stored [DecidableEq ρ] (hproper : Proper marks) (r : ρ) :
    marks.count (.freed r) <= marks.count (.stored r) ∧
      (Held r marks -> marks.count (.freed r) < marks.count (.stored r)) := by
  induction marks with
  | nil => exact ⟨Nat.le_refl 0, fun hheld => hheld.elim⟩
  | cons mark marks ih =>
      cases mark with
      | made s =>
          rw [List.count_cons_of_ne (by simp), List.count_cons_of_ne (by simp)]
          exact ih hproper
      | used s =>
          rw [List.count_cons_of_ne (by simp), List.count_cons_of_ne (by simp)]
          exact ih hproper.right
      | stored s =>
          rw [List.count_cons_of_ne (by simp)]
          rcases ih hproper.right with ⟨hle, hlt⟩
          cases eq_or_ne s r with
          | inl heq =>
              rw [heq, List.count_cons_self]
              exact ⟨Nat.le_succ_of_le hle, fun _ => Nat.lt_succ_of_le hle⟩
          | inr hne =>
              rw [List.count_cons_of_ne (by simpa using hne)]
              exact ⟨hle, fun hheld => hlt (hheld.resolve_left hne)⟩
      | freed s =>
          rw [List.count_cons_of_ne (a := Mark.stored r) (by simp)]
          rcases ih hproper.right with ⟨hle, hlt⟩
          cases eq_or_ne s r with
          | inl heq =>
              subst heq
              rw [List.count_cons_self]
              exact ⟨hlt hproper.left, fun hheld => absurd rfl hheld.left⟩
          | inr hne =>
              rw [List.count_cons_of_ne (by simpa using hne)]
              exact ⟨hle, fun hheld => hlt hheld.right⟩

/-!
## Slots
-/

variable {slots : ι -> Option ρ} {i : ι}

theorem Ledger.empty : Ledger ([] : List (Mark ρ)) (fun _ : ι => none) where
  proper := trivial
  held := by
    intro i r h
    cases h
  alone := by
    intro i j r h
    cases h

theorem Ledger.live (h : Ledger marks slots) (hi : slots i = some r) : Live r marks :=
  h.proper.live_of_held (h.held i r hi)

theorem Ledger.made (h : Ledger marks slots) (r : ρ) : Ledger (.made r :: marks) slots where
  proper := h.proper
  held := h.held
  alone := h.alone

theorem Ledger.used (h : Ledger marks slots) (hlive : Live r marks) :
    Ledger (.used r :: marks) slots where
  proper := ⟨hlive, h.proper⟩
  held := h.held
  alone := h.alone

theorem live_used (rs : List ρ) : Live r (rs.map .used ++ marks) <-> Live r marks := by
  induction rs with
  | nil => rfl
  | cons s rs ih => exact ih

theorem Ledger.usedAll (h : Ledger marks slots) {rs : List ρ}
    (hlive : forall r, r ∈ rs -> Live r marks) : Ledger (rs.map .used ++ marks) slots := by
  induction rs with
  | nil => exact h
  | cons r rs ih =>
      have hrest := ih fun s hs => hlive s (List.mem_cons_of_mem r hs)
      exact hrest.used ((live_used rs).mpr (hlive r List.mem_cons_self))

theorem Ledger.madeAll (h : Ledger marks slots) (rs : List ρ) :
    Ledger (rs.map .made ++ marks) slots := by
  induction rs with
  | nil => exact h
  | cons r rs ih => exact ih.made r

variable [DecidableEq ι]

theorem Ledger.freed (h : Ledger marks slots) (hi : slots i = some r) :
    Ledger (.freed r :: marks) (Function.update slots i none) where
  proper := ⟨h.held i r hi, h.proper⟩
  held := by
    intro j s hj
    cases eq_or_ne j i with
    | inl heq =>
        rw [heq, Function.update_self] at hj
        cases hj
    | inr hne =>
        rw [Function.update_of_ne hne] at hj
        refine ⟨fun heq => hne ?_, h.held j s hj⟩
        exact h.alone j i r (heq ▸ hj) hi
  alone := by
    intro j k s hj hk
    have hslots : forall l, Function.update slots i none l = some s -> slots l = some s := by
      intro l hl
      cases eq_or_ne l i with
      | inl heq =>
          rw [heq, Function.update_self] at hl
          cases hl
      | inr hne => rwa [Function.update_of_ne hne] at hl
    exact h.alone j k s (hslots j hj) (hslots k hk)

theorem Ledger.stored (h : Ledger marks slots) (hlive : Live r marks)
    (hothers : forall j, j ≠ i -> slots j ≠ some r) :
    Ledger (.stored r :: marks) (Function.update slots i (some r)) where
  proper := ⟨hlive, h.proper⟩
  held := by
    intro j s hj
    cases eq_or_ne j i with
    | inl heq =>
        rw [heq, Function.update_self] at hj
        exact Or.inl (Option.some.inj hj)
    | inr hne =>
        rw [Function.update_of_ne hne] at hj
        exact Or.inr (h.held j s hj)
  alone := by
    intro j k s hj hk
    cases eq_or_ne j i with
    | inl hji =>
        cases eq_or_ne k i with
        | inl hki => exact hji.trans hki.symm
        | inr hki =>
            rw [hji, Function.update_self] at hj
            rw [Function.update_of_ne hki, ← hj] at hk
            exact absurd hk (hothers k hki)
    | inr hji =>
        rw [Function.update_of_ne hji] at hj
        cases eq_or_ne k i with
        | inl hki =>
            rw [hki, Function.update_self] at hk
            rw [← hk] at hj
            exact absurd hj (hothers j hji)
        | inr hki =>
            rw [Function.update_of_ne hki] at hk
            exact h.alone j k s hj hk

/-!
## Optional objects
-/

theorem live_made {content : Option ρ} (h : content = some r) :
    Live r (content.toList.map .made ++ marks) := by
  subst h
  exact Or.inl rfl

theorem live_freed {content : Option ρ} (hne : content ≠ some r) (hlive : Live r marks) :
    Live r (content.toList.map .freed ++ marks) := by
  cases content with
  | none => exact hlive
  | some s => exact ⟨fun heq => hne (congrArg some heq), hlive⟩

theorem Ledger.freedOption (h : Ledger marks slots) {content : Option ρ}
    (hi : slots i = content) :
    Ledger (content.toList.map .freed ++ marks) (Function.update slots i none) := by
  cases content with
  | none =>
      rw [Function.update_eq_self_iff.mpr hi.symm]
      exact h
  | some r => exact h.freed hi

theorem Ledger.storedOption (h : Ledger marks slots) (hempty : slots i = none)
    {content : Option ρ} (hlive : forall r, content = some r -> Live r marks)
    (hothers : forall j r, content = some r -> slots j ≠ some r) :
    Ledger (content.toList.map .stored ++ marks) (Function.update slots i content) := by
  cases content with
  | none =>
      rw [Function.update_eq_self_iff.mpr hempty.symm]
      exact h
  | some r => exact h.stored (hlive r rfl) fun j _ => hothers j r rfl

end Foundation
end MyLibs
