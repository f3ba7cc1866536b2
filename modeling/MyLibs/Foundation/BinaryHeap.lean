import Mathlib.Data.Multiset.Range
import Mathlib.Data.Multiset.MapFold
import MyLibs.Foundation.Order

/-!
# Binary heaps in an array

A heap of `n` elements occupies positions `1` to `n` of an array; the parent of
position `i` is position `i / 2`. This module gives the order invariant, the
multiset an array holds, and the two textbook repairs: sifting an element up
from a hole and sifting it down from a hole.
-/

namespace MyLibs
namespace Foundation
namespace BinaryHeap

variable {α : Type _}

/-!
## Contents

The multiset at positions `1` to `n`, and how one write changes it.
-/

def bag (a : Nat -> α) (n : Nat) : Multiset α :=
  (Multiset.range n).map (fun i => a (i + 1))

@[simp] theorem bag_zero (a : Nat -> α) : bag a 0 = 0 := rfl

theorem bag_succ (a : Nat -> α) (n : Nat) :
    bag a (n + 1) = a (n + 1) ::ₘ bag a n := by
  simp [bag, Multiset.range_succ]

@[simp] theorem card_bag (a : Nat -> α) (n : Nat) : (bag a n).card = n := by
  simp [bag]

theorem mem_bag {a : Nat -> α} {n : Nat} {x : α} :
    x ∈ bag a n <-> exists i, 1 <= i ∧ i <= n ∧ a i = x := by
  constructor
  · intro hx
    rcases Multiset.mem_map.mp hx with ⟨i, hi, hix⟩
    have hin : i < n := Multiset.mem_range.mp hi
    exact ⟨i + 1, by omega, by omega, hix⟩
  · rintro ⟨i, hi, hin, hix⟩
    apply Multiset.mem_map.mpr
    refine ⟨i - 1, Multiset.mem_range.mpr (by omega), ?_⟩
    rw [Nat.sub_add_cancel hi]
    exact hix

theorem bag_congr {a b : Nat -> α} {n : Nat}
    (h : forall i, 1 <= i -> i <= n -> a i = b i) : bag a n = bag b n := by
  apply Multiset.map_congr rfl
  intro i hi
  have hin : i < n := Multiset.mem_range.mp hi
  exact h (i + 1) (by omega) (by omega)

theorem bag_update_outside (a : Nat -> α) {n i : Nat} (x : α)
    (hi : i = 0 ∨ n < i) : bag (Function.update a i x) n = bag a n := by
  apply bag_congr
  intro j hj hjn
  have hji : j ≠ i := by omega
  simp [Function.update_of_ne hji]

theorem bag_update (a : Nat -> α) {n i : Nat} (x : α)
    (hi : 1 <= i) (hin : i <= n) :
    a i ::ₘ bag (Function.update a i x) n = x ::ₘ bag a n := by
  induction n with
  | zero =>
      omega
  | succ n ih =>
      rw [bag_succ, bag_succ]
      by_cases hlast : i = n + 1
      · subst hlast
        rw [Function.update_self, bag_update_outside a x (Or.inr (by omega))]
        exact Multiset.cons_swap _ _ _
      · have hrest := ih (by omega)
        rw [Function.update_of_ne (Ne.symm hlast), Multiset.cons_swap, hrest]
        exact Multiset.cons_swap _ _ _

theorem bag_moveHole (a : Nat -> α) {n hole next : Nat} (x : α) (hhole : 1 <= hole)
    (hn : hole <= n) (hnext : 1 <= next) (hnextLe : next <= n) (hne : next ≠ hole) :
    bag (Function.update (Function.update a hole (a next)) next x) n =
      bag (Function.update a hole x) n := by
  have hmoved := bag_update (Function.update a hole (a next)) x hnext hnextLe
  rw [Function.update_of_ne hne] at hmoved
  have hover := bag_update a (a next) hhole hn
  have hfilled := bag_update a x hhole hn
  have hboth : a next ::ₘ a hole ::ₘ
      bag (Function.update (Function.update a hole (a next)) next x) n =
      a next ::ₘ a hole ::ₘ bag (Function.update a hole x) n := by
    rw [Multiset.cons_swap, hmoved, Multiset.cons_swap, hover, hfilled]
    exact Multiset.cons_swap _ _ _
  exact (Multiset.cons_inj_right _).mp ((Multiset.cons_inj_right _).mp hboth)

theorem bag_add (a : Nat -> α) (n k : Nat) :
    bag a (n + k) = bag a n + bag (fun i => a (n + i)) k := by
  induction k with
  | zero => rw [Nat.add_zero, bag_zero, Multiset.add_zero]
  | succ k ih =>
      rw [← Nat.add_assoc, bag_succ, bag_succ, ih, Multiset.add_cons]
      rfl

theorem bag_le_bag (a : Nat -> α) {m n : Nat} (h : m <= n) :
    bag a m <= bag a n :=
  Multiset.map_le_map (Multiset.range_le.mpr h)

/-!
## Heap order

`OrderedFrom k` asks only for the pairs whose parent is at `k` or after, which
is what a heap built bottom-up has established when it reaches `k`.
-/

/-- No element with a parent at `k` or after is before its parent. -/
def OrderedFrom (before : α -> α -> Prop) (k : Nat) (a : Nat -> α)
    (n : Nat) : Prop :=
  forall i, 1 < i -> i <= n -> k <= i / 2 -> ¬ before (a i) (a (i / 2))

def HeapOrdered (before : α -> α -> Prop) (a : Nat -> α) (n : Nat) : Prop :=
  forall i, 1 < i -> i <= n -> ¬ before (a i) (a (i / 2))

theorem heapOrdered_iff_orderedFrom_one {before : α -> α -> Prop}
    {a : Nat -> α} {n : Nat} :
    HeapOrdered before a n <-> OrderedFrom before 1 a n := by
  constructor
  · intro h i hi hin _hk
    exact h i hi hin
  · intro h i hi hin
    exact h i hi hin (by omega)

theorem HeapOrdered.mono {before : α -> α -> Prop} {a : Nat -> α} {m n : Nat}
    (h : HeapOrdered before a n) (hmn : m <= n) : HeapOrdered before a m := by
  intro i hi him
  exact h i hi (by omega)

theorem HeapOrdered.congr {before : α -> α -> Prop} {a b : Nat -> α} {n : Nat}
    (h : HeapOrdered before a n)
    (hab : forall i, 1 <= i -> i <= n -> a i = b i) :
    HeapOrdered before b n := by
  intro i hi hin
  rw [← hab i (by omega) hin, ← hab (i / 2) (by omega) (by omega)]
  exact h i hi hin

theorem HeapOrdered.notBefore_top {before : α -> α -> Prop} {a : Nat -> α}
    {n : Nat} (hw : StrictWeakOrder before) (h : HeapOrdered before a n)
    (i : Nat) (hi : 1 <= i) (hin : i <= n) : ¬ before (a i) (a 1) := by
  induction i using Nat.strongRecOn with
  | _ i ih =>
      by_cases hone : i = 1
      · rw [hone]
        exact hw.irrefl (a 1)
      · have hparent := h i (by omega) hin
        have htop := ih (i / 2) (by omega) (by omega) (by omega)
        exact hw.negTrans _ _ _ hparent htop

theorem HeapOrdered.notBefore_top_of_mem {before : α -> α -> Prop}
    {a : Nat -> α} {n : Nat} (hw : StrictWeakOrder before)
    (h : HeapOrdered before a n) {x : α} (hx : x ∈ bag a n) :
    ¬ before x (a 1) := by
  rcases mem_bag.mp hx with ⟨i, hi, hin, rfl⟩
  exact h.notBefore_top hw i hi hin

/-!
## Sifting up

The hole climbs while the element is before the hole's parent.
-/

def siftUp (before : α -> α -> Prop) [DecidableRel before] (x : α)
    (hole : Nat) (a : Nat -> α) : Nat -> α :=
  if 1 < hole ∧ before x (a (hole / 2)) then
    siftUp before x (hole / 2) (Function.update a hole (a (hole / 2)))
  else
    Function.update a hole x
termination_by hole

/-- What the climb keeps: pairs off the hole are ordered, and the hole's
children are neither before its parent nor before the element to place. -/
structure ClimbOrder (before : α -> α -> Prop) (a : Nat -> α) (n hole : Nat)
    (x : α) : Prop where
  offHole : forall i, 1 < i -> i <= n -> i ≠ hole -> i / 2 ≠ hole ->
    ¬ before (a i) (a (i / 2))
  acrossHole : 1 < hole -> forall c, c <= n -> c / 2 = hole ->
    ¬ before (a c) (a (hole / 2))
  underHole : forall c, c <= n -> c / 2 = hole -> ¬ before (a c) x

theorem ClimbOrder.climb {before : α -> α -> Prop} (hw : StrictWeakOrder before)
    {a : Nat -> α} {n hole : Nat} {x : α} (h : ClimbOrder before a n hole x)
    (hhole : 1 < hole) (hn : hole <= n) (hx : before x (a (hole / 2))) :
    ClimbOrder before (Function.update a hole (a (hole / 2))) n (hole / 2) x where
  offHole := by
    intro i hi hin hne hparent
    have hih : i ≠ hole := by
      rintro rfl
      exact hparent rfl
    rw [Function.update_of_ne hih]
    by_cases hchild : i / 2 = hole
    · rw [hchild, Function.update_self]
      exact h.acrossHole hhole i hin hchild
    · rw [Function.update_of_ne hchild]
      exact h.offHole i hi hin hih hchild
  acrossHole := by
    intro hgrand c hcn hc
    have hparent : ¬ before (a (hole / 2)) (a (hole / 2 / 2)) :=
      h.offHole (hole / 2) hgrand (by omega) (by omega) (by omega)
    rw [Function.update_of_ne (by omega : hole / 2 / 2 ≠ hole)]
    by_cases hch : c = hole
    · rw [hch, Function.update_self]
      exact hparent
    · rw [Function.update_of_ne hch]
      have hcParent := h.offHole c (by omega) hcn hch (by omega)
      rw [hc] at hcParent
      exact hw.negTrans _ _ _ hcParent hparent
  underHole := by
    intro c hcn hc
    by_cases hch : c = hole
    · rw [hch, Function.update_self]
      exact hw.asymm _ _ hx
    · rw [Function.update_of_ne hch]
      have hcParent := h.offHole c (by omega) hcn hch (by omega)
      rw [hc] at hcParent
      exact hw.asymm _ _ (hw.trans_notBefore hx hcParent)

theorem ClimbOrder.finish {before : α -> α -> Prop} {a : Nat -> α}
    {n hole : Nat} {x : α} (h : ClimbOrder before a n hole x)
    (hstop : 1 < hole -> ¬ before x (a (hole / 2))) :
    HeapOrdered before (Function.update a hole x) n := by
  intro i hi hin
  by_cases hih : i = hole
  · rw [hih, Function.update_self,
      Function.update_of_ne (by omega : hole / 2 ≠ hole)]
    exact hstop (by omega)
  · rw [Function.update_of_ne hih]
    by_cases hchild : i / 2 = hole
    · rw [hchild, Function.update_self]
      exact h.underHole i hin hchild
    · rw [Function.update_of_ne hchild]
      exact h.offHole i hi hin hih hchild

/-- Sifting up restores the heap and trades the hole's element for `x`. -/
theorem siftUp_spec {before : α -> α -> Prop} [DecidableRel before]
    (hw : StrictWeakOrder before) {a : Nat -> α} {n hole : Nat} {x : α}
    (h : ClimbOrder before a n hole x) (hhole : 1 <= hole) (hn : hole <= n) :
    HeapOrdered before (siftUp before x hole a) n ∧
      a hole ::ₘ bag (siftUp before x hole a) n = x ::ₘ bag a n := by
  induction hole, a using siftUp.induct before x with
  | case1 hole a hcond ih =>
      rw [siftUp, if_pos hcond]
      have hstep := h.climb hw hcond.left hn hcond.right
      rcases ih hstep (by omega) (by omega) with ⟨hordered, hbag⟩
      refine ⟨hordered, ?_⟩
      rw [Function.update_of_ne (by omega : hole / 2 ≠ hole)] at hbag
      have hmove := bag_update a (a (hole / 2)) hhole hn
      have hboth : a (hole / 2) ::ₘ a hole ::ₘ
          bag (siftUp before x (hole / 2)
            (Function.update a hole (a (hole / 2)))) n =
          a (hole / 2) ::ₘ x ::ₘ bag a n := by
        rw [Multiset.cons_swap, hbag, Multiset.cons_swap, hmove,
          Multiset.cons_swap]
      exact (Multiset.cons_inj_right _).mp hboth
  | case2 hole a hcond =>
      rw [siftUp, if_neg hcond]
      exact ⟨h.finish (fun hone hx => hcond ⟨hone, hx⟩),
        bag_update a x hhole hn⟩

theorem HeapOrdered.climbOrder_append {before : α -> α -> Prop} {a : Nat -> α}
    {n : Nat} (h : HeapOrdered before a n) (x : α) :
    ClimbOrder before a (n + 1) (n + 1) x where
  offHole := by
    intro i hi hin hne _hparent
    exact h i hi (by omega)
  acrossHole := by
    intro _hone c hc hparent
    omega
  underHole := by
    intro c hc hparent
    omega

/-!
## Sifting down

The hole sinks towards the first of its children while that child is before
the element.
-/

def firstChild (before : α -> α -> Prop) [DecidableRel before] (a : Nat -> α)
    (n i : Nat) : Nat :=
  if 2 * i < n ∧ before (a (2 * i + 1)) (a (2 * i)) then 2 * i + 1 else 2 * i

theorem firstChild_half (before : α -> α -> Prop) [DecidableRel before]
    (a : Nat -> α) (n i : Nat) : firstChild before a n i / 2 = i := by
  unfold firstChild
  split <;> omega

theorem firstChild_le {before : α -> α -> Prop} [DecidableRel before]
    {a : Nat -> α} {n i : Nat} (hi : 2 * i <= n) :
    firstChild before a n i <= n := by
  unfold firstChild
  split <;> omega

theorem notBefore_firstChild {before : α -> α -> Prop} [DecidableRel before]
    (hw : StrictWeakOrder before) (a : Nat -> α) {n i c : Nat}
    (hcn : c <= n) (hc : c / 2 = i) :
    ¬ before (a c) (a (firstChild before a n i)) := by
  have hcase : c = 2 * i ∨ c = 2 * i + 1 := by omega
  unfold firstChild
  split
  · rename_i hright
    rcases hcase with rfl | rfl
    · exact hw.asymm _ _ hright.right
    · exact hw.irrefl _
  · rename_i hleft
    rcases hcase with rfl | rfl
    · exact hw.irrefl _
    · intro hbefore
      exact hleft ⟨by omega, hbefore⟩

def siftDown (before : α -> α -> Prop) [DecidableRel before] (x : α) (n : Nat)
    (hole : Nat) (a : Nat -> α) : Nat -> α :=
  if 1 <= hole ∧ 2 * hole <= n then
    if before (a (firstChild before a n hole)) x then
      siftDown before x n (firstChild before a n hole)
        (Function.update a hole (a (firstChild before a n hole)))
    else
      Function.update a hole x
  else
    Function.update a hole x
termination_by n + 1 - hole
decreasing_by
  have hhalf := firstChild_half before a n hole
  omega

/-- What sinking keeps, for the pairs with a parent at `k` or after: pairs off
the hole are ordered, and the hole's parent is after neither the element to
place nor the hole's children. -/
structure SinkOrder (before : α -> α -> Prop) (k : Nat) (a : Nat -> α)
    (n hole : Nat) (x : α) : Prop where
  offHole : forall i, 1 < i -> i <= n -> k <= i / 2 -> i ≠ hole ->
    i / 2 ≠ hole -> ¬ before (a i) (a (i / 2))
  overHole : 1 < hole -> k <= hole / 2 -> ¬ before x (a (hole / 2))
  acrossHole : 1 < hole -> k <= hole / 2 -> forall c, c <= n -> c / 2 = hole ->
    ¬ before (a c) (a (hole / 2))

theorem SinkOrder.sink {before : α -> α -> Prop} [DecidableRel before]
    (hw : StrictWeakOrder before) {k : Nat} {a : Nat -> α} {n hole : Nat}
    {x : α} (h : SinkOrder before k a n hole x) (hk : k <= hole)
    (hhole : 1 <= hole) (hn : 2 * hole <= n)
    (hx : before (a (firstChild before a n hole)) x) :
    SinkOrder before k
      (Function.update a hole (a (firstChild before a n hole))) n
      (firstChild before a n hole) x := by
  have hhalf := firstChild_half before a n hole
  have hle : firstChild before a n hole <= n := firstChild_le hn
  constructor
  · intro i hi hin hki hne hparent
    by_cases hih : i = hole
    · subst hih
      rw [Function.update_self,
        Function.update_of_ne (by omega : i / 2 ≠ i)]
      exact h.acrossHole hi hki _ hle hhalf
    · rw [Function.update_of_ne hih]
      by_cases hchild : i / 2 = hole
      · rw [hchild, Function.update_self]
        exact notBefore_firstChild hw a hin hchild
      · rw [Function.update_of_ne hchild]
        exact h.offHole i hi hin hki hih hchild
  · intro _hone _hk
    rw [hhalf, Function.update_self]
    exact hw.asymm _ _ hx
  · intro _hone _hk c hcn hc
    rw [hhalf, Function.update_self,
      Function.update_of_ne (by omega : c ≠ hole)]
    have hpair := h.offHole c (by omega) hcn (by omega) (by omega) (by omega)
    rw [hc] at hpair
    exact hpair

theorem SinkOrder.finish {before : α -> α -> Prop} {k : Nat} {a : Nat -> α}
    {n hole : Nat} {x : α} (h : SinkOrder before k a n hole x)
    (hstop : forall c, c <= n -> c / 2 = hole -> 1 <= hole ->
      ¬ before (a c) x) :
    OrderedFrom before k (Function.update a hole x) n := by
  intro i hi hin hki
  by_cases hih : i = hole
  · subst hih
    rw [Function.update_self, Function.update_of_ne (by omega : i / 2 ≠ i)]
    exact h.overHole hi hki
  · rw [Function.update_of_ne hih]
    by_cases hchild : i / 2 = hole
    · rw [hchild, Function.update_self]
      exact hstop i hin hchild (by omega)
    · rw [Function.update_of_ne hchild]
      exact h.offHole i hi hin hki hih hchild

/-- Sifting down orders the pairs from `k` on and trades the hole's element
for `x`. -/
theorem siftDown_spec {before : α -> α -> Prop} [DecidableRel before]
    (hw : StrictWeakOrder before) {k : Nat} {a : Nat -> α} {n hole : Nat}
    {x : α} (h : SinkOrder before k a n hole x) (hk : k <= hole)
    (hhole : 1 <= hole) (hn : hole <= n) :
    OrderedFrom before k (siftDown before x n hole a) n ∧
      a hole ::ₘ bag (siftDown before x n hole a) n = x ::ₘ bag a n := by
  induction hole, a using siftDown.induct before x n with
  | case1 hole a hin hcond ih =>
      have hhalf := firstChild_half before a n hole
      have hle : firstChild before a n hole <= n := firstChild_le hin.right
      rw [siftDown, if_pos hin, if_pos hcond]
      have hstep := h.sink hw hk hhole hin.right hcond
      rcases ih hstep (by omega) (by omega) hle with ⟨hordered, hbag⟩
      refine ⟨hordered, ?_⟩
      rw [Function.update_of_ne
        (by omega : firstChild before a n hole ≠ hole)] at hbag
      have hmove := bag_update a (a (firstChild before a n hole)) hhole hn
      have hboth : a (firstChild before a n hole) ::ₘ a hole ::ₘ
          bag (siftDown before x n (firstChild before a n hole)
            (Function.update a hole (a (firstChild before a n hole)))) n =
          a (firstChild before a n hole) ::ₘ x ::ₘ bag a n := by
        rw [Multiset.cons_swap, hbag, Multiset.cons_swap, hmove,
          Multiset.cons_swap]
      exact (Multiset.cons_inj_right _).mp hboth
  | case2 hole a hin hcond =>
      rw [siftDown, if_pos hin, if_neg hcond]
      refine ⟨h.finish ?_, bag_update a x hhole hn⟩
      intro c hcn hc _hone
      exact hw.negTrans _ _ _ (notBefore_firstChild hw a hcn hc) hcond
  | case3 hole a hin =>
      rw [siftDown, if_neg hin]
      refine ⟨h.finish ?_, bag_update a x hhole hn⟩
      intro c hcn hc _hone
      omega

theorem siftDown_outside {before : α -> α -> Prop} [DecidableRel before] {a : Nat -> α}
    {n hole : Nat} (x : α) (hhole : 1 <= hole) (hn : hole <= n) {i : Nat}
    (hi : i < hole ∨ n < i) : siftDown before x n hole a i = a i := by
  induction hole, a using siftDown.induct before x n with
  | case1 hole a hin hcond ih =>
      have hhalf := firstChild_half before a n hole
      have hle : firstChild before a n hole <= n := firstChild_le hin.right
      rw [siftDown, if_pos hin, if_pos hcond, ih (by omega) hle (by omega),
        Function.update_of_ne (by omega : i ≠ hole)]
  | case2 hole a hin hcond =>
      rw [siftDown, if_pos hin, if_neg hcond, Function.update_of_ne (by omega : i ≠ hole)]
  | case3 hole a hin =>
      rw [siftDown, if_neg hin, Function.update_of_ne (by omega : i ≠ hole)]

/-!
## Building a heap

The elements are sifted down from the last parent to the top.
-/

/-- Sift down the elements at `k`, `k - 1`, and so on to 1. -/
def buildHeap (before : α -> α -> Prop) [DecidableRel before] (n : Nat) :
    Nat -> (Nat -> α) -> Nat -> α
  | 0, a => a
  | k + 1, a => buildHeap before n k (siftDown before (a (k + 1)) n (k + 1) a)

theorem orderedFrom_last (before : α -> α -> Prop) (a : Nat -> α) (n : Nat) :
    OrderedFrom before (n / 2 + 1) a n := by
  intro i _hi hin hk
  omega

theorem OrderedFrom.sinkOrder {before : α -> α -> Prop} {a : Nat -> α} {n k : Nat}
    (h : OrderedFrom before (k + 1) a n) (x : α) : SinkOrder before k a n k x where
  offHole := by
    intro i hi hin hk _hne hparent
    exact h i hi hin (by omega)
  overHole := by
    intro hone hk
    omega
  acrossHole := by
    intro hone hk
    omega

theorem OrderedFrom.siftDown {before : α -> α -> Prop} [DecidableRel before]
    (hw : StrictWeakOrder before) {a : Nat -> α} {n k : Nat}
    (h : OrderedFrom before (k + 1) a n) (hk : 1 <= k) (hn : k <= n) :
    OrderedFrom before k (siftDown before (a k) n k a) n ∧
      bag (siftDown before (a k) n k a) n = bag a n := by
  rcases siftDown_spec hw (h.sinkOrder (a k)) (Nat.le_refl k) hk hn with ⟨horder, hbag⟩
  exact ⟨horder, (Multiset.cons_inj_right _).mp hbag⟩

/-- Building a heap orders all pairs and only moves elements around. -/
theorem buildHeap_spec {before : α -> α -> Prop} [DecidableRel before]
    (hw : StrictWeakOrder before) {a : Nat -> α} {n k : Nat}
    (h : OrderedFrom before (k + 1) a n) (hn : k <= n) :
    HeapOrdered before (buildHeap before n k a) n ∧
      bag (buildHeap before n k a) n = bag a n ∧
      forall i, i = 0 ∨ n < i -> buildHeap before n k a i = a i := by
  induction k generalizing a with
  | zero => exact ⟨heapOrdered_iff_orderedFrom_one.mpr h, rfl, fun _ _ => rfl⟩
  | succ k ih =>
      rcases h.siftDown hw (by omega) hn with ⟨horder, hbag⟩
      rcases ih horder (by omega) with ⟨hheap, hrest, houtside⟩
      refine ⟨hheap, hrest.trans hbag, ?_⟩
      intro i hi
      rw [buildHeap, houtside i hi, siftDown_outside (a (k + 1)) (by omega) hn (by omega)]

end BinaryHeap
end Foundation
end MyLibs
