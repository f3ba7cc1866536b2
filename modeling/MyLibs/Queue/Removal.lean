import MyLibs.Queue.Runs

/-!
# Removal from the middle of the queue

`queue_remove` fills the hole with the last element and lets it sink. It never
lets it climb, so when the last element comes before the parent of the hole,
which can only happen in another subtree, the queue is no longer a heap.
-/

namespace MyLibs
namespace Queue

open Foundation
open Foundation.BinaryHeap

variable {ctx : Type _}

theorem queueRemove_not_heapOrdered {queue : MyQueue ctx}
    (hcompare : queue.ValidCompare) (hheap : queue.InHeapOrder) {idx : Nat}
    (hidx : idx < queue.elements) (hpos : 0 < idx)
    (hbefore : queue.before (queue.root queue.elements)
      (queue.root ((idx + 1) / 2))) :
    ¬ HeapOrdered queue.before
      (siftDown queue.before (queue.root queue.elements) (queue.elements - 1)
        (idx + 1) (queue.refilled idx)) (queue.elements - 1) := by
  have hw := before_strictWeakOrder hcompare
  have hlast : idx + 1 ≠ queue.elements := by
    intro heq
    rw [heq] at hbefore
    exact hheap queue.elements (by omega) (Nat.le_refl _) hbefore
  have hstays :
      siftDown queue.before (queue.root queue.elements) (queue.elements - 1)
          (idx + 1) (queue.refilled idx) =
        Function.update (queue.refilled idx) (idx + 1)
          (queue.root queue.elements) := by
    rw [siftDown]
    by_cases hin : 1 <= idx + 1 ∧ 2 * (idx + 1) <= queue.elements - 1
    · have hhalf := firstChild_half queue.before (queue.refilled idx)
        (queue.elements - 1) (idx + 1)
      have hle : firstChild queue.before (queue.refilled idx)
          (queue.elements - 1) (idx + 1) <= queue.elements - 1 :=
        firstChild_le hin.right
      rw [if_pos hin, if_neg]
      intro hchild
      generalize firstChild queue.before (queue.refilled idx)
        (queue.elements - 1) (idx + 1) = child at *
      unfold MyQueue.refilled at hchild
      rw [Function.update_of_ne (by omega : child ≠ idx + 1)] at hchild
      have hhole := hheap child (by omega) (by omega)
      rw [hhalf] at hhole
      have hparent := hheap (idx + 1) (by omega) (by omega)
      exact hw.negTrans _ _ _ hhole hparent (hw.trans hchild hbefore)
    · rw [if_neg hin]
  rw [hstays]
  intro hordered
  have hpair := hordered (idx + 1) (by omega) (by omega)
  rw [Function.update_self,
    Function.update_of_ne (by omega : (idx + 1) / 2 ≠ idx + 1)] at hpair
  unfold MyQueue.refilled at hpair
  rw [Function.update_of_ne (by omega : (idx + 1) / 2 ≠ idx + 1)] at hpair
  exact hpair hbefore

/-- Removal at `idx` returns the element there, keeps the others and leaves a
heap exactly when the last element is not before the parent of the hole. -/
theorem queueRemove_keeps_heap_iff {queue : MyQueue ctx}
    (hcompare : queue.ValidCompare) (hheap : queue.InHeapOrder)
    (hroom : queue.elements <= queue.maxElements)
    (hwidth : queue.maxElements < 2 ^ 32) {idx : Nat}
    (hidx : idx < queue.elements) :
    (exists queue',
      queueRemove queue idx = some (queue.root (idx + 1), queue') ∧
        queue.contents = queue.root (idx + 1) ::ₘ queue'.contents ∧
        queue'.InHeapOrder ∧
        forall x, x ∈ queue'.contents -> ¬ queue'.before x (queueTop queue')) <->
      idx = 0 ∨
        ¬ queue.before (queue.root queue.elements)
          (queue.root ((idx + 1) / 2)) := by
  have hremove :=
    queueRemove_eq_siftDown hcompare hheap hidx hroom hwidth
  constructor
  · rintro ⟨queue', hqueue', _hcontents, horder, _htop⟩
    rw [hremove] at hqueue'
    cases hqueue'
    by_cases hzero : idx = 0
    · exact Or.inl hzero
    · right
      intro hbefore
      exact queueRemove_not_heapOrdered hcompare hheap hidx (by omega) hbefore
        horder
  · intro hcond
    have horder := queueRemove_heapOrdered hcompare hheap hidx (by
      intro hpos
      cases hcond with
      | inl hzero => omega
      | inr hnot => exact hnot)
    refine ⟨_, hremove, queueRemove_contents hcompare hheap hidx, horder, ?_⟩
    intro x hx
    exact horder.notBefore_top_of_mem (before_strictWeakOrder hcompare) hx

def sevenElements : MyQueue Unit :=
  { tenSlots with
    root := fun i => [0, 1, 10, 2, 11, 12, 3, 4].getD i 0
    elements := 7 }

theorem sevenElements_inHeapOrder : sevenElements.InHeapOrder := by
  intro i hi hin
  have hrange : i = 2 ∨ i = 3 ∨ i = 4 ∨ i = 5 ∨ i = 6 ∨ i = 7 := by
    have hseven : i <= 7 := hin
    omega
  rcases hrange with rfl | rfl | rfl | rfl | rfl | rfl <;> decide

theorem queueRemove_keeps_heap_iff_sevenElements :
    (exists queue',
      queueRemove sevenElements 4 = some (12, queue') ∧
        sevenElements.contents = 12 ::ₘ queue'.contents ∧
        queue'.InHeapOrder ∧
        forall x, x ∈ queue'.contents -> ¬ queue'.before x (queueTop queue')) <->
      4 = 0 ∨
        ¬ sevenElements.before (sevenElements.root 7)
          (sevenElements.root 2) :=
  queueRemove_keeps_heap_iff (byAddress_validCompare rfl rfl (Or.inl rfl))
    sevenElements_inHeapOrder (by decide) (by decide) (by decide : 4 < 7)

/-- Removing the element at index 3 puts 4 under 10. -/
theorem queueRemove_middle_breaks_heap :
    sevenElements.ValidCompare ∧ sevenElements.InHeapOrder ∧
      exists queue', queueRemove sevenElements 3 = some (11, queue') ∧
        ¬ queue'.InHeapOrder := by
  have hvalid : sevenElements.ValidCompare :=
    byAddress_validCompare rfl rfl (Or.inl rfl)
  have hremove := queueRemove_eq_siftDown hvalid sevenElements_inHeapOrder
    (by decide : 3 < 7) (by decide) (by decide)
  exact ⟨hvalid, sevenElements_inHeapOrder, _, hremove,
    queueRemove_not_heapOrdered hvalid sevenElements_inHeapOrder
      (by decide : 3 < 7) (by decide) (by decide)⟩

end Queue
end MyLibs
