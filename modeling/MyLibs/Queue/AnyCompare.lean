import MyLibs.Queue.Rebuilding

/-!
# The elements under any comparison

The loops of the queue carry one element and a hole for it. Wherever `compare` sends
the hole, filling it gives the same multiset, so that a function without any order
spoils the heap order but loses no element.
-/

namespace MyLibs
namespace Queue

open Foundation
open Foundation.BinaryHeap

variable {ctx : Type _} {queue : MyQueue ctx}

/-!
## Sinking and climbing
-/

def Sunk.filled (element : Ptr) : Sunk -> Nat -> Ptr
  | .returned root => root
  | .leaf idx root => Function.update root idx element

def Sunk.Inside (elements : Nat) : Sunk -> Prop
  | .returned _ => True
  | .leaf idx _ => 1 <= idx ∧ idx <= elements

theorem downheapSink_keeps (element : Ptr) (fuel : Nat) (first : Bool) (idx : Nat)
    (root : Nat -> Ptr) (hidx : 1 <= idx) (hle : idx <= queue.elements)
    (hfuel : queue.elements < fuel + idx) :
    exists sunk, downheapSink queue element fuel first idx root = some sunk ∧
      sunk.Inside queue.elements ∧
      bag (sunk.filled element) queue.elements =
        bag (Function.update root idx element) queue.elements := by
  induction fuel generalizing first idx root with
  | zero => omega
  | succ fuel ih =>
      rw [downheapSink]
      by_cases hin : idx <= queue.elements / 2
      · rw [if_pos hin]
        simp only
        generalize hnext : (if idx + idx < queue.elements ∧
            queue.compareKeys (root (idx + idx)) (root (idx + idx + 1)) > 0 then
          idx + idx + 1 else idx + idx) = nextIndex
        have hchild : idx < nextIndex ∧ nextIndex <= queue.elements := by
          rw [← hnext]
          split <;> omega
        rcases hchild with ⟨hbelow, hchildLe⟩
        split
        · exact ⟨_, rfl, trivial, rfl⟩
        · rcases ih false nextIndex (Function.update root idx (root nextIndex))
            (by omega) hchildLe (by omega) with ⟨sunk, hsink, hinside, hbag⟩
          refine ⟨sunk, hsink, hinside, hbag.trans ?_⟩
          exact bag_moveHole root element hidx hle (by omega) hchildLe (by omega)
      · rw [if_neg hin]
        exact ⟨_, rfl, ⟨hidx, hle⟩, rfl⟩

theorem downheapClimb_keeps (element : Ptr) (startIdx fuel idx : Nat) (root : Nat -> Ptr)
    (hidx : 1 <= idx) (hle : idx <= queue.elements) (hfuel : idx < fuel) :
    exists hole root', downheapClimb queue element startIdx fuel idx root =
        some (hole, root') ∧
      bag (Function.update root' hole element) queue.elements =
        bag (Function.update root idx element) queue.elements := by
  induction fuel generalizing idx root with
  | zero => omega
  | succ fuel ih =>
      rw [downheapClimb]
      by_cases hstart : idx / 2 > startIdx
      · rw [if_pos hstart]
        split
        · exact ⟨idx, root, rfl, rfl⟩
        · rcases ih (idx / 2) (Function.update root idx (root (idx / 2))) (by omega)
            (by omega) (by omega) with ⟨hole, root', hclimb, hbag⟩
          refine ⟨hole, root', hclimb, hbag.trans ?_⟩
          exact bag_moveHole root element hidx hle (by omega) (by omega) (by omega)
      · rw [if_neg hstart]
        exact ⟨idx, root, rfl, rfl⟩

theorem downheap_behind {idx : Nat} (hbehind : queue.elements < idx) :
    downheap queue idx = some queue := by
  have hhalf : ¬ idx <= queue.elements / 2 := by omega
  have hclimb : downheapClimb queue (queue.root idx) idx (idx + 1) idx queue.root =
      some (idx, queue.root) := by
    rw [downheapClimb]
    exact if_neg (by omega)
  simp only [downheap, downheapSink, if_neg hhalf, hclimb, Function.update_eq_self]

theorem downheap_keeps (queue : MyQueue ctx) {idx : Nat} (hidx : 1 <= idx) :
    exists root, downheap queue idx = some { queue with root := root } ∧
      bag root queue.elements = queue.contents := by
  by_cases hle : idx <= queue.elements
  · rcases downheapSink_keeps (queue.root idx) (queue.elements + 1) true idx queue.root
      hidx hle (by omega) with ⟨sunk, hsink, hinside, hbag⟩
    rw [Function.update_eq_self] at hbag
    unfold downheap
    simp only [hsink]
    cases sunk with
    | returned root => exact ⟨root, rfl, hbag⟩
    | leaf leaf root =>
        rcases downheapClimb_keeps (queue.root idx) idx (leaf + 1) leaf root hinside.left
          hinside.right (Nat.lt_succ_self leaf) with ⟨hole, root', hclimb, hplaced⟩
        simp only [hclimb]
        exact ⟨_, rfl, hplaced.trans hbag⟩
  · exact ⟨queue.root, downheap_behind (by omega), rfl⟩

/-!
## The functions
-/

theorem queueFixLoop_keeps (queue : MyQueue ctx) (k : Nat) :
    exists root, queueFixLoop k queue = some { queue with root := root } ∧
      bag root queue.elements = queue.contents := by
  induction k generalizing queue with
  | zero => exact ⟨queue.root, rfl, rfl⟩
  | succ k ih =>
      rcases downheap_keeps queue (by omega : 1 <= k + 1) with
        ⟨root, hdown, hbag⟩
      rcases ih { queue with root := root } with ⟨last, hfix, hrest⟩
      rw [queueFixLoop, hdown]
      exact ⟨last, hfix, hrest.trans hbag⟩

theorem queueReplaced_keeps (element : Ptr) (hpos : 0 < queue.elements) :
    exists root, queueReplaced { queue with root := Function.update queue.root 1 element } =
        some { queue with root := root } ∧
      queueTop queue ::ₘ bag root queue.elements = element ::ₘ queue.contents := by
  rcases downheap_keeps { queue with root := Function.update queue.root 1 element }
    (Nat.le_refl 1) with ⟨root, hdown, hbag⟩
  refine ⟨root, hdown, ?_⟩
  rw [hbag]
  exact bag_update queue.root element (Nat.le_refl 1) hpos

theorem bag_refilled {idx : Nat} (hidx : idx < queue.elements) :
    queue.contents =
      queue.root (idx + 1) ::ₘ bag (queue.refilled idx) (queue.elements - 1) := by
  have hlast : queue.elements - 1 + 1 = queue.elements := by omega
  have hsplit := bag_succ queue.root (queue.elements - 1)
  rw [hlast] at hsplit
  unfold MyQueue.contents MyQueue.refilled
  rw [hsplit]
  by_cases hend : idx + 1 <= queue.elements - 1
  · exact (bag_update queue.root (queue.root queue.elements) (by omega) hend).symm
  · rw [bag_update_outside queue.root _ (Or.inr (by omega)),
      (by omega : idx + 1 = queue.elements)]

theorem queueRemove_keeps {idx : Nat} (hidx : idx < queue.elements)
    (hmax : queue.elements <= queue.maxElements) (hwidth : queue.maxElements < 2 ^ 32) :
    exists root,
      queueRemove queue idx = some (queue.root (idx + 1),
        { queue with root := root, elements := queue.elements - 1 }) ∧
      queue.contents = queue.root (idx + 1) ::ₘ bag root (queue.elements - 1) := by
  rcases downheap_keeps
    { queue with root := queue.refilled idx, elements := queue.elements - 1 }
      (by omega : 1 <= idx + 1) with ⟨root, hdown, hbag⟩
  refine ⟨root, ?_, ?_⟩
  · unfold queueRemove
    rw [if_pos (by omega), uint_pred (by omega) (by omega)]
    simp only [MyQueue.refilled] at hdown ⊢
    rw [hdown]
  · rw [hbag]
    exact bag_refilled hidx

/-- The loop ends at the sentinel if not before, unless `compare` puts the element before
itself. -/
theorem queueInsertLoop_keeps {element : Ptr} (hself : ¬ queue.before element element)
    (fuel idx n : Nat) (root : Nat -> Ptr) (hidx : 1 <= idx) (hle : idx <= n)
    (hfuel : idx < fuel) (hsentinel : root 0 = element) :
    exists hole root', queueInsertLoop queue element fuel idx root = some (hole, root') ∧
      bag (Function.update root' hole element) n =
        bag (Function.update root idx element) n := by
  induction fuel generalizing idx root with
  | zero => omega
  | succ fuel ih =>
      rw [queueInsertLoop]
      split
      · rename_i hbefore
        have htwo : 1 < idx := by
          by_contra hone
          have hzero : idx / 2 = 0 := by omega
          rw [hzero, hsentinel] at hbefore
          exact hself hbefore
        have hzero : Function.update root idx (root (idx / 2)) 0 = element := by
          rw [Function.update_of_ne (by omega : 0 ≠ idx)]
          exact hsentinel
        rcases ih (idx / 2) (Function.update root idx (root (idx / 2))) (by omega) (by omega)
          (by omega) hzero with ⟨hole, root', hloop, hbag⟩
        refine ⟨hole, root', hloop, hbag.trans ?_⟩
        exact bag_moveHole root element hidx hle (by omega) (by omega) (by omega)
      · exact ⟨idx, root, rfl, rfl⟩

theorem queueInsert_keeps {element : Ptr} (hself : ¬ queue.before element element)
    (hroom : queue.elements < queue.maxElements) :
    exists root,
      queueInsert queue element =
        some { queue with root := root, elements := queue.elements + 1 } ∧
      bag root (queue.elements + 1) = element ::ₘ queue.contents := by
  rcases queueInsertLoop_keeps hself (queue.elements + 1 + 1) (queue.elements + 1)
    (queue.elements + 1) (Function.update queue.root 0 element) (by omega) (Nat.le_refl _)
    (by omega) (Function.update_self ..) with ⟨hole, root, hloop, hbag⟩
  refine ⟨Function.update root hole element, ?_, ?_⟩
  · unfold queueInsert
    rw [if_pos hroom]
    simp only [hloop]
  · rw [hbag, bag_succ, Function.update_self, bag_update_outside _ _ (Or.inr (by omega)),
      bag_update_outside _ _ (Or.inl rfl)]
    rfl

end Queue
end MyLibs
