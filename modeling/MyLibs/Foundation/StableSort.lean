import Mathlib.Data.List.Basic
import Mathlib.Tactic.Common

/-!
# Stable sorting

A list is stably sorted when its elements are in order and those of one class
of ties are in the order they came in. There is only one such list. Putting an
element behind everything that is not after it keeps a list stably sorted.
-/

namespace MyLibs
namespace Foundation

universe u v

/-- `ys` are the elements of `xs` in order, and ties are as they were. -/
structure StablySorted {α : Type u} (le : α -> α -> Prop) (xs ys : List α) : Prop where
  perm : ys.Perm xs
  sorted : ys.Pairwise le
  ties : forall same : α -> Bool, (forall a b, same a = true -> same b = true -> le a b) ->
    ys.filter same = xs.filter same

namespace StablySorted

variable {α : Type u} {β : Type v} {le : α -> α -> Prop} {xs ys zs : List α}

theorem nil : StablySorted le ([] : List α) [] where
  perm := List.Perm.nil
  sorted := List.Pairwise.nil
  ties := fun _ _ => rfl

/-!
## Insertion
-/

theorem pairwise_insert {first rest : List α} {new : α}
    (hsorted : (first ++ rest).Pairwise le) (hfirst : forall a, a ∈ first -> le a new)
    (hrest : forall a, a ∈ rest -> le new a) : (first ++ new :: rest).Pairwise le := by
  rw [List.pairwise_append] at hsorted ⊢
  rcases hsorted with ⟨hbefore, hbehind, hacross⟩
  constructor
  · exact hbefore
  constructor
  · exact List.pairwise_cons.mpr ⟨hrest, hbehind⟩
  · intro a ha b hb
    cases List.mem_cons.mp hb with
    | inl hnew => exact hnew.symm ▸ hfirst a ha
    | inr hmem => exact hacross a ha b hmem

/-- The new element is the last of its ties, in both lists. -/
theorem insert {first rest : List α} {new : α} (h : StablySorted le xs (first ++ rest))
    (hfirst : forall a, a ∈ first -> le a new)
    (hrest : forall a, a ∈ rest -> le new a ∧ ¬ le a new) :
    StablySorted le (xs ++ [new]) (first ++ new :: rest) where
  perm := by
    calc
      (first ++ new :: rest).Perm (new :: (first ++ rest)) := List.perm_middle
      List.Perm _ (new :: xs) := h.perm.cons new
      List.Perm _ (xs ++ [new]) := (List.perm_append_singleton new xs).symm
  sorted := pairwise_insert h.sorted hfirst fun a ha => (hrest a ha).left
  ties := by
    intro same hsame
    have hold := h.ties same hsame
    rw [List.filter_append] at hold
    rw [List.filter_append, List.filter_append, ← hold, List.append_assoc]
    cases hnew : same new with
    | false =>
        rw [List.filter_cons_of_neg (by rw [hnew]; exact Bool.false_ne_true),
          List.filter_cons_of_neg (by rw [hnew]; exact Bool.false_ne_true)]
        exact congrArg _ (List.append_nil _).symm
    | true =>
        have hnone : rest.filter same = [] := by
          rw [List.filter_eq_nil_iff]
          intro a ha hsameA
          exact (hrest a ha).right (hsame a new hsameA hnew)
        rw [List.filter_cons_of_pos hnew, List.filter_cons_of_pos hnew, hnone]
        rfl

theorem map {le' : β -> β -> Prop} (f : α -> β)
    (h : StablySorted (fun a b => le' (f a) (f b)) xs ys) :
    StablySorted le' (xs.map f) (ys.map f) where
  perm := h.perm.map f
  sorted := List.pairwise_map.mpr h.sorted
  ties := by
    intro same hsame
    rw [List.filter_map, List.filter_map]
    exact congrArg (List.map f) (h.ties (same ∘ f) fun a b => hsame (f a) (f b))

/-!
## There is one stable order
-/

theorem tied_class (htrans : forall a b c, le a b -> le b c -> le a c) [DecidableRel le]
    (a : α) : forall b c, decide (le b a ∧ le a b) = true -> decide (le c a ∧ le a c) = true ->
      le b c := by
  intro b c hb hc
  rw [decide_eq_true_eq] at hb hc
  exact htrans b a c hb.left hc.right

theorem eq_of_ties (htotal : forall a b, le a b ∨ le b a)
    (htrans : forall a b c, le a b -> le b c -> le a c) (hys : ys.Pairwise le)
    (hzs : zs.Pairwise le) (hperm : ys.Perm zs)
    (hties : forall same : α -> Bool, (forall a b, same a = true -> same b = true -> le a b) ->
      ys.filter same = zs.filter same) : ys = zs := by
  classical
  induction ys generalizing zs with
  | nil => exact hperm.nil_eq
  | cons a ys ih =>
      have hrefl : forall c, le c c := fun c => (htotal c c).elim id id
      cases zs with
      | nil => exact absurd hperm.eq_nil (List.cons_ne_nil a ys)
      | cons b zs =>
          rw [List.pairwise_cons] at hys hzs
          have hab : le a b := by
            cases List.mem_cons.mp (hperm.mem_iff.mpr (List.mem_cons_self : b ∈ b :: zs)) with
            | inl heq => exact heq ▸ hrefl b
            | inr hmem => exact hys.left b hmem
          have hba : le b a := by
            cases List.mem_cons.mp (hperm.mem_iff.mp (List.mem_cons_self : a ∈ a :: ys)) with
            | inl heq => exact heq ▸ hrefl a
            | inr hmem => exact hzs.left a hmem
          -- the heads are the first of the same ties
          have hheads : a = b := by
            have hfilter := hties (fun c => decide (le c a ∧ le a c)) (tied_class htrans a)
            have hsameA : decide (le a a ∧ le a a) = true := decide_eq_true ⟨hrefl a, hrefl a⟩
            have hsameB : decide (le b a ∧ le a b) = true := decide_eq_true ⟨hba, hab⟩
            rw [List.filter_cons, List.filter_cons, if_pos hsameA, if_pos hsameB] at hfilter
            exact (List.cons.inj hfilter).left
          subst hheads
          have htails : ys = zs := by
            refine ih hys.right hzs.right hperm.cons_inv fun same hsame => ?_
            have hfilter := hties same hsame
            cases hsameA : same a with
            | false =>
                have hnot : ¬ same a = true := by
                  rw [hsameA]
                  exact Bool.false_ne_true
                rwa [List.filter_cons_of_neg hnot, List.filter_cons_of_neg hnot] at hfilter
            | true =>
                rw [List.filter_cons_of_pos hsameA, List.filter_cons_of_pos hsameA] at hfilter
                exact (List.cons.inj hfilter).right
          rw [htails]

theorem unique (htotal : forall a b, le a b ∨ le b a)
    (htrans : forall a b c, le a b -> le b c -> le a c) (hys : StablySorted le xs ys)
    (hzs : StablySorted le xs zs) : ys = zs :=
  eq_of_ties htotal htrans hys.sorted hzs.sorted (hys.perm.trans hzs.perm.symm)
    fun same hsame => (hys.ties same hsame).trans (hzs.ties same hsame).symm

theorem mergeSort {le : α -> α -> Bool} (htotal : forall a b, le a b = true ∨ le b a = true)
    (htrans : forall a b c, le a b = true -> le b c = true -> le a c = true) (xs : List α) :
    StablySorted (fun a b => le a b = true) xs (xs.mergeSort le) where
  perm := List.mergeSort_perm xs le
  sorted := List.pairwise_mergeSort htrans (fun a b => (Bool.or_eq_true ..).mpr (htotal a b)) xs
  ties := by
    intro same hsame
    have hclass : (xs.filter same).Pairwise fun a b => le a b = true := by
      rw [List.pairwise_iff_forall_sublist]
      intro a b hsub
      have hmem := hsub.subset
      exact hsame a b (List.mem_filter.mp (hmem (List.mem_cons_self ..))).right
        (List.mem_filter.mp (hmem (List.mem_cons_of_mem _ (List.mem_cons_self ..)))).right
    have hsub : (xs.filter same).Sublist (xs.mergeSort le) :=
      List.sublist_mergeSort htrans (fun a b => (Bool.or_eq_true ..).mpr (htotal a b)) hclass
        List.filter_sublist
    have hfiltered := hsub.filter same
    simp only [List.filter_filter, Bool.and_self] at hfiltered
    exact (hfiltered.eq_of_length ((List.mergeSort_perm xs le).filter same).length_eq.symm).symm

end StablySorted

end Foundation
end MyLibs
