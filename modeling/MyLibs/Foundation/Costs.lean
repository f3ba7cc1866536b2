import Mathlib.Algebra.BigOperators.Group.Finset.Basic
import Mathlib.Algebra.Order.BigOperators.Group.Finset
import Mathlib.Algebra.Order.Ring.Nat
import Mathlib.Data.Nat.Log

/-!
# Counting what a computation does

A computation that may fail, with the number of times it did what is charged for,
and the sums of logarithms such numbers come to when the computation walks the
levels of a binary tree.
-/

namespace MyLibs
namespace Foundation

inductive Costed (α : Type _) where
  | fails
  | ends (cost : Nat) (a : α)

namespace Costed

variable {α β : Type _}

def andThen (x : Costed α) (f : α -> Costed β) : Costed β :=
  match x with
  | fails => fails
  | ends cost a =>
      match f a with
      | fails => fails
      | ends more b => ends (cost + more) b

theorem andThen_mono {x : Costed α} {f g : α -> Costed β} {cost : Nat} {b : β}
    (hfg : forall a more b, f a = ends more b -> g a = ends more b)
    (h : x.andThen f = ends cost b) : x.andThen g = ends cost b := by
  cases x with
  | fails => cases h
  | ends first a =>
      cases hfa : f a with
      | fails =>
          simp only [andThen, hfa] at h
          cases h
      | ends more b' =>
          simp only [andThen, hfa] at h
          simp only [andThen, hfg a more b' hfa]
          exact h

def result : Costed α -> Option α
  | fails => none
  | ends _ a => some a

@[simp] theorem result_ends (cost : Nat) (a : α) : (ends cost a).result = some a := rfl

@[simp] theorem result_andThen (x : Costed α) (f : α -> Costed β) :
    (x.andThen f).result = x.result.bind fun a => (f a).result := by
  cases x with
  | fails => rfl
  | ends cost a =>
      simp only [andThen, result_ends, Option.bind_some]
      cases f a <;> rfl

def Satisfies (p : Nat -> α -> Prop) (x : Costed α) : Prop :=
  exists cost a, x = ends cost a ∧ p cost a

theorem satisfies_ends {p : Nat -> α -> Prop} {cost : Nat} {a : α} (h : p cost a) :
    (ends cost a).Satisfies p :=
  ⟨cost, a, rfl, h⟩

theorem Satisfies.mono {p q : Nat -> α -> Prop} {x : Costed α} (h : x.Satisfies p)
    (hpq : forall cost a, p cost a -> q cost a) : x.Satisfies q := by
  rcases h with ⟨cost, a, hx, hp⟩
  exact ⟨cost, a, hx, hpq cost a hp⟩

theorem Satisfies.andThen {p : Nat -> α -> Prop} {q : Nat -> β -> Prop} {x : Costed α}
    {f : α -> Costed β} (h : x.Satisfies p)
    (hf : forall cost a, p cost a -> (f a).Satisfies fun more b => q (cost + more) b) :
    (x.andThen f).Satisfies q := by
  rcases h with ⟨cost, a, hx, hp⟩
  rcases hf cost a hp with ⟨more, b, hfa, hq⟩
  refine ⟨cost + more, b, ?_, hq⟩
  rw [hx]
  simp only [Costed.andThen, hfa]

def ofExcept {ε : Type _} : Except ε α -> Costed α
  | .error _ => fails
  | .ok a => ends 0 a

@[simp] theorem result_ofExcept {ε : Type _} (x : Except ε α) :
    (ofExcept x).result = x.toOption := by
  cases x <;> rfl

theorem eq_ok_of_ofExcept {ε : Type _} {x : Except ε α} {cost : Nat} {a : α}
    (h : ofExcept x = ends cost a) : x = .ok a := by
  cases x with
  | error e => cases h
  | ok b =>
      cases h
      rfl

def ofOption : Option α -> Costed α
  | none => fails
  | some a => ends 0 a

@[simp] theorem result_ofOption (x : Option α) : (ofOption x).result = x := by
  cases x <;> rfl

theorem eq_some_of_ofOption {x : Option α} {cost : Nat} {a : α}
    (h : ofOption x = ends cost a) : cost = 0 ∧ x = some a := by
  cases x with
  | none => cases h
  | some b =>
      cases h
      exact ⟨rfl, rfl⟩

def Ensures (p : Nat -> α -> Prop) (x : Costed α) : Prop :=
  forall cost a, x = ends cost a -> p cost a

theorem ensures_fails (p : Nat -> α -> Prop) : (fails : Costed α).Ensures p := by
  intro cost a h
  cases h

theorem ensures_ends {p : Nat -> α -> Prop} {cost : Nat} {a : α} (h : p cost a) :
    (ends cost a).Ensures p := by
  intro cost' a' hends
  cases hends
  exact h

theorem Ensures.mono {p q : Nat -> α -> Prop} {x : Costed α} (h : x.Ensures p)
    (hpq : forall cost a, p cost a -> q cost a) : x.Ensures q :=
  fun cost a hends => hpq cost a (h cost a hends)

/-- What has to hold of the second part may depend on the first. -/
theorem ensures_andThen {p : Nat -> β -> Prop} {x : Costed α} {f : α -> Costed β}
    (h : forall cost a, x = ends cost a -> (f a).Ensures fun more b => p (cost + more) b) :
    (x.andThen f).Ensures p := by
  cases x with
  | fails => exact ensures_fails p
  | ends cost a =>
      have hrest := h cost a rfl
      cases hfa : f a with
      | fails =>
          simp only [Costed.andThen, hfa]
          exact ensures_fails p
      | ends more b =>
          simp only [Costed.andThen, hfa]
          exact ensures_ends (hrest more b hfa)

/-- What is not charged for does not count. -/
theorem ensures_ofExcept_andThen {ε : Type _} {p : Nat -> β -> Prop} {x : Except ε α}
    {f : α -> Costed β} (hf : forall a, x = .ok a -> (f a).Ensures p) :
    ((ofExcept x).andThen f).Ensures p := by
  apply ensures_andThen
  intro cost a hends
  have hok := eq_ok_of_ofExcept hends
  rw [hok] at hends
  cases hends
  exact (hf a hok).mono fun more b hb => (Nat.zero_add more).symm ▸ hb

theorem ensures_ofOption_andThen {p : Nat -> β -> Prop} {x : Option α}
    {f : α -> Costed β} (hf : forall a, x = some a -> (f a).Ensures p) :
    ((ofOption x).andThen f).Ensures p := by
  apply ensures_andThen
  intro cost a hends
  rcases eq_some_of_ofOption hends with ⟨hzero, hsome⟩
  rw [hzero]
  exact (hf a hsome).mono fun more b hb => (Nat.zero_add more).symm ▸ hb

def AtMost (n : Nat) (x : Costed α) : Prop :=
  x.Ensures fun cost _ => cost <= n

theorem atMost_fails (n : Nat) : (fails : Costed α).AtMost n :=
  ensures_fails _

theorem atMost_ends {n cost : Nat} (h : cost <= n) (a : α) : (ends cost a).AtMost n :=
  ensures_ends h

theorem atMost_ofExcept {ε : Type _} (x : Except ε α) : (ofExcept x).AtMost 0 := by
  cases x with
  | error e => exact atMost_fails 0
  | ok a => exact atMost_ends (Nat.le_refl 0) a

theorem AtMost.mono {m n : Nat} {x : Costed α} (h : x.AtMost m) (hmn : m <= n) : x.AtMost n :=
  Ensures.mono h fun _ _ hcost => Nat.le_trans hcost hmn

theorem AtMost.andThen {m n : Nat} {x : Costed α} {f : α -> Costed β} (hx : x.AtMost m)
    (hf : forall cost a, x = ends cost a -> (f a).AtMost n) : (x.andThen f).AtMost (m + n) := by
  apply ensures_andThen
  intro cost a hends
  have hcost := hx cost a hends
  exact Ensures.mono (hf cost a hends) fun _ _ hmore => Nat.add_le_add hcost hmore

theorem atMost_ends_andThen {m n cost : Nat} {a : α} {f : α -> Costed β}
    (hsum : cost + m <= n) (hf : (f a).AtMost m) : ((ends cost a).andThen f).AtMost n := by
  apply AtMost.mono _ hsum
  apply (atMost_ends (Nat.le_refl cost) a).andThen
  intro cost' a' hends
  cases hends
  exact hf

theorem atMost_ofExcept_andThen {ε : Type _} {n : Nat} {x : Except ε α} {f : α -> Costed β}
    (hf : forall a, x = .ok a -> (f a).AtMost n) : ((ofExcept x).andThen f).AtMost n :=
  ensures_ofExcept_andThen hf

theorem AtMost.satisfies {n : Nat} {x : Costed α} {a : α} (h : x.AtMost n)
    (hresult : x.result = some a) : x.Satisfies fun cost b => b = a ∧ cost <= n := by
  cases x with
  | fails => cases hresult
  | ends cost b => exact satisfies_ends ⟨Option.some.inj hresult, h cost b rfl⟩

end Costed

theorem eq_ok_of_toOption {ε α : Type _} {x : Except ε α} {a : α}
    (h : x.toOption = some a) : x = .ok a := by
  cases x with
  | error e => cases h
  | ok b =>
      cases h
      rfl

theorem toOption_bind {ε α β : Type _} (x : Except ε α) (f : α -> Except ε β) :
    (x >>= f).toOption = x.toOption.bind fun a => (f a).toOption := by
  cases x <;> rfl

theorem Costed.result_bind {ε α β : Type _} {x : Costed α} {y : Except ε α}
    {f : α -> Costed β} {g : α -> Except ε β} (hx : x.result = y.toOption)
    (hf : forall a, (f a).result = (g a).toOption) :
    (x.andThen f).result = (y >>= g).toOption := by
  rw [result_andThen, toOption_bind, hx]
  congr 1
  funext a
  exact hf a

/-!
## The potential method

What a state has saved up pays for a step that costs more than its charge.
-/

inductive CountedRun {σ op : Type _} (step : σ -> op -> Costed σ) (Permitted : σ -> op -> Prop)
    (start : σ) : List op -> Nat -> σ -> Prop
  | nil : CountedRun step Permitted start [] 0 start
  | snoc {ops : List op} {cost more : Nat} {s s' : σ} {o : op} :
      CountedRun step Permitted start ops cost s -> Permitted s o ->
      step s o = .ends more s' ->
      CountedRun step Permitted start (ops ++ [o]) (cost + more) s'

open Finset

theorem le_log_of_div_pow {n i d leaf : Nat} (hi : 1 <= i) (hleaf : leaf / 2 ^ d = i)
    (hn : leaf <= n) : d <= Nat.log 2 (n / i) := by
  apply Nat.le_log_of_pow_le (by decide)
  rw [Nat.le_div_iff_mul_le hi]
  calc
    2 ^ d * i = leaf / 2 ^ d * 2 ^ d := by rw [hleaf, Nat.mul_comm]
    _ <= leaf := Nat.div_mul_le_self leaf (2 ^ d)
    _ <= n := hn

theorem log_div_half {n i : Nat} (hi : i < n / 2) :
    Nat.log 2 (n / (i + 1)) = Nat.log 2 (n / 2 / (i + 1)) + 1 := by
  have htwo : 2 <= n / (i + 1) := by
    rw [Nat.le_div_iff_mul_le (by omega)]
    omega
  rw [Nat.log_of_one_lt_of_le (by decide) htwo, Nat.div_div_eq_div_mul,
    Nat.div_div_eq_div_mul, Nat.mul_comm]

theorem sum_log_div_half (n : Nat) :
    ∑ i ∈ range n, Nat.log 2 (n / (i + 1)) = ∑ i ∈ range (n / 2), Nat.log 2 (n / (i + 1)) := by
  symm
  apply sum_subset
  · exact range_subset_range.mpr (Nat.div_le_self n 2)
  · intro i hin hhalf
    have hlt : n / (i + 1) < 2 := by
      rw [Nat.div_lt_iff_lt_mul (by omega)]
      have hover : ¬ i < n / 2 := fun h => hhalf (mem_range.mpr h)
      omega
    exact Nat.log_of_lt hlt

theorem sum_log_div_le (n : Nat) : ∑ i ∈ range (n / 2), Nat.log 2 (n / (i + 1)) <= n := by
  induction n using Nat.strong_induction_on with
  | h n ih =>
      by_cases hzero : n = 0
      · rw [hzero]
        simp
      · have hhalf : n / 2 < n := by omega
        have hlevels : ∑ i ∈ range (n / 2), Nat.log 2 (n / (i + 1)) =
            ∑ i ∈ range (n / 2), Nat.log 2 (n / 2 / (i + 1)) + n / 2 := by
          rw [sum_congr rfl (fun i hi => log_div_half (mem_range.mp hi)), sum_add_distrib]
          simp
        have hbound := ih (n / 2) hhalf
        rw [← sum_log_div_half] at hbound
        omega

end Foundation
end MyLibs
