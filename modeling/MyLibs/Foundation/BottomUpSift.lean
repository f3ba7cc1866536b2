import MyLibs.Foundation.BinaryHeap

/-!
# Sifting down bottom-up

The bottom-up variant of sifting down first lets the hole sink all the way to a
leaf, comparing only siblings, and then lets the element climb back. When the
elements below the hole are in heap order the outcome is that of the textbook
version: along the path of first children the elements that are before the one
to place form a prefix, and both versions stop at its end.
-/

namespace MyLibs
namespace Foundation
namespace BinaryHeap

variable {α : Type _}

/-!
## Positions below a position
-/

inductive Below (r : Nat) : Nat -> Prop where
  | child (i : Nat) : i / 2 = r -> Below r i
  | under (i : Nat) : Below r (i / 2) -> Below r i

theorem Below.lt {r i : Nat} (h : Below r i) (hr : 1 <= r) : r < i := by
  induction h with
  | child i hi => omega
  | under i _ ih => omega

theorem Below.of_child {r c i : Nat} (h : Below c i) (hc : c / 2 = r) :
    Below r i := by
  induction h with
  | child i hi =>
      apply Below.under
      rw [hi]
      exact Below.child c hc
  | under i _ ih => exact Below.under i ih

def OrderedBelow (before : α -> α -> Prop) (r : Nat) (a : Nat -> α)
    (n : Nat) : Prop :=
  forall i, i <= n -> Below r (i / 2) -> ¬ before (a i) (a (i / 2))

theorem OrderedFrom.orderedBelow {before : α -> α -> Prop} {a : Nat -> α} {n k : Nat}
    (h : OrderedFrom before (k + 1) a n) (hk : 1 <= k) : OrderedBelow before k a n := by
  intro i hin hbelow
  have hlt := hbelow.lt hk
  exact h i (by omega) hin (by omega)

theorem OrderedBelow.child {before : α -> α -> Prop} {r c : Nat}
    {a : Nat -> α} {n : Nat} (h : OrderedBelow before r a n) (hr : 1 <= r)
    (hc : c / 2 = r) (y : α) :
    OrderedBelow before c (Function.update a r y) n := by
  intro i hin hbelow
  have hlt := hbelow.lt (by omega)
  rw [Function.update_of_ne (by omega : i ≠ r),
    Function.update_of_ne (by omega : i / 2 ≠ r)]
  exact h i hin (hbelow.of_child hc)

/-!
## The two phases
-/

def sinkLeaf (before : α -> α -> Prop) [DecidableRel before] (n hole : Nat)
    (a : Nat -> α) : Nat × (Nat -> α) :=
  if 1 <= hole ∧ 2 * hole <= n then
    sinkLeaf before n (firstChild before a n hole)
      (Function.update a hole (a (firstChild before a n hole)))
  else
    (hole, a)
termination_by n + 1 - hole
decreasing_by
  have hhalf := firstChild_half before a n hole
  omega

/-- Let the hole climb past parents that are not before `x`, but not to
`start` or above, and place `x` there. -/
def climbPlace (before : α -> α -> Prop) [DecidableRel before] (x : α)
    (start hole : Nat) (a : Nat -> α) : Nat -> α :=
  if start < hole / 2 ∧ ¬ before (a (hole / 2)) x then
    climbPlace before x start (hole / 2) (Function.update a hole (a (hole / 2)))
  else
    Function.update a hole x
termination_by hole

def bounceDown (before : α -> α -> Prop) [DecidableRel before] (x : α)
    (n start : Nat) (a : Nat -> α) : Nat -> α :=
  if 1 <= start ∧ 2 * start <= n ∧ before (a (firstChild before a n start)) x then
    let sunk := sinkLeaf before n (firstChild before a n start)
      (Function.update a start (a (firstChild before a n start)))
    climbPlace before x start sunk.1 sunk.2
  else
    Function.update a start x

section Agreement

variable {before : α -> α -> Prop} [DecidableRel before] {x : α}
variable {start n : Nat}

theorem climbPlace_update_hole {hole : Nat} (a : Nat -> α) (y : α)
    (hstart : start < hole) :
    climbPlace before x start hole (Function.update a hole y) =
      climbPlace before x start hole a := by
  conv =>
    lhs
    rw [climbPlace, Function.update_idem, Function.update_idem,
      Function.update_of_ne (by omega : hole / 2 ≠ hole)]
  conv =>
    rhs
    rw [climbPlace]

/-- If the first child of the hole is not before `x`, the climb undoes all of
the sinking. -/
theorem climbPlace_sinkLeaf_of_stop {hole : Nat} {a : Nat -> α}
    (hw : StrictWeakOrder before) (hhole : 1 <= hole) (hstart : start < hole)
    (hbelow : OrderedBelow before hole a n)
    (hstop : 2 * hole <= n -> ¬ before (a (firstChild before a n hole)) x) :
    climbPlace before x start (sinkLeaf before n hole a).1
        (sinkLeaf before n hole a).2 =
      climbPlace before x start hole a := by
  induction hole, a using sinkLeaf.induct before n with
  | case1 hole a hin ih =>
      have hhalf := firstChild_half before a n hole
      have hchild := hstop hin.right
      rw [sinkLeaf, if_pos hin]
      generalize hc : firstChild before a n hole = c at *
      have hundo := ih (by omega) (by omega)
        (hbelow.child hhole hhalf (a c)) (by
          intro hcn
          have hgrand := firstChild_half before
            (Function.update a hole (a c)) n c
          have hgrandLe : firstChild before
              (Function.update a hole (a c)) n c <= n := firstChild_le hcn
          have hpair := hbelow _ hgrandLe (by
            rw [hgrand]
            exact Below.child c hhalf)
          rw [hgrand] at hpair
          rw [Function.update_of_ne (by omega)]
          exact hw.negTrans _ _ _ hpair hchild)
      rw [hundo, climbPlace, hhalf, Function.update_self, if_pos ⟨hstart, hchild⟩]
      have hrestored : Function.update (Function.update a hole (a c)) c (a c) =
          Function.update a hole (a c) := by
        apply Function.update_eq_self_iff.mpr
        rw [Function.update_of_ne (by omega : c ≠ hole)]
      rw [hrestored]
      exact climbPlace_update_hole a (a c) hstart
  | case2 hole a hin =>
      rw [sinkLeaf, if_neg hin]

theorem climbPlace_sinkLeaf {hole : Nat} {a : Nat -> α}
    (hw : StrictWeakOrder before) (hhole : 1 <= hole) (hstart : start < hole)
    (hbelow : OrderedBelow before hole a n)
    (hparent : start < hole / 2 -> before (a (hole / 2)) x) :
    climbPlace before x start (sinkLeaf before n hole a).1
        (sinkLeaf before n hole a).2 =
      siftDown before x n hole a := by
  induction hole, a using siftDown.induct before x n with
  | case1 hole a hin hcond ih =>
      have hhalf := firstChild_half before a n hole
      rw [siftDown, if_pos hin, if_pos hcond, sinkLeaf, if_pos hin]
      apply ih (by omega) (by omega) (hbelow.child hhole hhalf _)
      intro _hstart
      rw [hhalf, Function.update_self]
      exact hcond
  | case2 hole a hin hcond =>
      rw [siftDown, if_pos hin, if_neg hcond,
        climbPlace_sinkLeaf_of_stop hw hhole hstart hbelow (fun _ => hcond),
        climbPlace, if_neg]
      rintro ⟨hlt, hnot⟩
      exact hnot (hparent hlt)
  | case3 hole a hin =>
      rw [siftDown, if_neg hin, sinkLeaf, if_neg hin, climbPlace, if_neg]
      rintro ⟨hlt, hnot⟩
      exact hnot (hparent hlt)

theorem bounceDown_of_sink {a : Nat -> α} (hstart : 1 <= start)
    (hn : 2 * start <= n) (hx : before (a (firstChild before a n start)) x) :
    bounceDown before x n start a =
      climbPlace before x start
        (sinkLeaf before n (firstChild before a n start)
          (Function.update a start (a (firstChild before a n start)))).1
        (sinkLeaf before n (firstChild before a n start)
          (Function.update a start (a (firstChild before a n start)))).2 :=
  if_pos ⟨hstart, hn, hx⟩

theorem bounceDown_of_stay {a : Nat -> α}
    (h : 2 * start <= n -> ¬ before (a (firstChild before a n start)) x) :
    bounceDown before x n start a = Function.update a start x :=
  if_neg (fun hin => h hin.right.left hin.right.right)

/-- Bottom-up and textbook sifting agree on any heap with a hole on top. -/
theorem bounceDown_eq_siftDown {a : Nat -> α} (hw : StrictWeakOrder before)
    (hstart : 1 <= start) (hbelow : OrderedBelow before start a n) :
    bounceDown before x n start a = siftDown before x n start a := by
  have hhalf := firstChild_half before a n start
  rw [siftDown]
  by_cases hin : 1 <= start ∧ 2 * start <= n
  · by_cases hx : before (a (firstChild before a n start)) x
    · rw [bounceDown_of_sink hstart hin.right hx, if_pos hin, if_pos hx]
      apply climbPlace_sinkLeaf hw (by omega) (by omega)
        (hbelow.child hstart hhalf _)
      intro hlt
      omega
    · rw [bounceDown_of_stay (fun _ => hx), if_pos hin, if_neg hx]
  · rw [bounceDown_of_stay (fun hn => absurd ⟨hstart, hn⟩ hin), if_neg hin]

end Agreement

end BinaryHeap
end Foundation
end MyLibs
