import MyLibs.Foundation.BottomUpSift
import MyLibs.Queue.Order

/-!
# The loops of the queue are sifts

The insertion loop is a sift up that stops at the sentinel, and `_downheap` is
the bottom-up sift down. Both end within the fuel the model gives them.
-/

namespace MyLibs
namespace Queue

open Foundation
open Foundation.BinaryHeap

variable {ctx : Type _} {queue : MyQueue ctx}

/-!
## Insertion

The element itself sits at position 0, so the loop ends at the top without a
test for it.
-/

theorem queueInsertLoop_eq_siftUp (hvalid : queue.ValidCompare) (element : Ptr)
    (fuel idx : Nat) (root : Nat -> Ptr) (hfuel : idx < fuel) (hidx : 1 <= idx)
    (hsentinel : root 0 = element) :
    exists hole root',
      queueInsertLoop queue element fuel idx root = some (hole, root') ∧
        Function.update root' hole element =
          siftUp queue.before element idx root := by
  induction fuel generalizing idx root with
  | zero => omega
  | succ fuel ih =>
      rw [siftUp]
      by_cases hbefore : queue.before element (root (idx / 2))
      · have hone : 1 < idx := by
          by_contra hle
          have hzero : idx / 2 = 0 := by omega
          rw [hzero, hsentinel] at hbefore
          exact (before_strictWeakOrder hvalid).irrefl element hbefore
        have hsign : queue.compareKeys element (root (idx / 2)) < 0 := hbefore
        rw [if_pos ⟨hone, hbefore⟩, queueInsertLoop]
        simp only [if_pos hsign]
        apply ih (idx / 2) _ (by omega) (by omega)
        rw [Function.update_of_ne (by omega : 0 ≠ idx)]
        exact hsentinel
      · have hsign : ¬ queue.compareKeys element (root (idx / 2)) < 0 := hbefore
        rw [if_neg (fun h => hbefore h.right), queueInsertLoop]
        simp only [if_neg hsign]
        exact ⟨idx, root, rfl, rfl⟩

theorem queueInsert_eq_siftUp (hvalid : queue.ValidCompare) (element : Ptr)
    (hroom : queue.elements < queue.maxElements) :
    queueInsert queue element =
      some { queue with
        elements := queue.elements + 1
        root := siftUp queue.before element (queue.elements + 1)
          (Function.update queue.root 0 element) } := by
  rcases queueInsertLoop_eq_siftUp hvalid element (queue.elements + 1 + 1)
      (queue.elements + 1) (Function.update queue.root 0 element) (by omega)
      (by omega) (Function.update_self 0 element queue.root) with
    ⟨hole, root', hloop, hroot⟩
  unfold queueInsert
  rw [if_pos hroom]
  simp only [hloop, hroot]

/-!
## Sinking and climbing
-/

theorem nextIndex_eq_firstChild (hvalid : queue.ValidCompare)
    (root : Nat -> Ptr) (idx : Nat) :
    (if idx + idx < queue.elements ∧
        queue.compareKeys (root (idx + idx)) (root (idx + idx + 1)) > 0 then
      idx + idx + 1
    else
      idx + idx) =
      firstChild queue.before root queue.elements idx := by
  unfold firstChild
  simp only [compareKeys_pos_iff hvalid, ← Nat.two_mul]

theorem downheapSink_eq_sinkLeaf (hvalid : queue.ValidCompare) (element : Ptr)
    (fuel idx : Nat) (root : Nat -> Ptr) (hidx : 1 <= idx)
    (hle : idx <= queue.elements) (hfuel : queue.elements < fuel + idx) :
    downheapSink queue element fuel false idx root =
      some (.leaf (sinkLeaf queue.before queue.elements idx root).1
        (sinkLeaf queue.before queue.elements idx root).2) := by
  induction fuel generalizing idx root with
  | zero => omega
  | succ fuel ih =>
      have hhalf := firstChild_half queue.before root queue.elements idx
      rw [downheapSink, sinkLeaf]
      simp only [nextIndex_eq_firstChild hvalid]
      by_cases hin : idx <= queue.elements / 2
      · have hchildLe : firstChild queue.before root queue.elements idx <=
            queue.elements := firstChild_le (by omega)
        have hguard : 1 <= idx ∧ 2 * idx <= queue.elements := by omega
        rw [if_pos hin, if_pos hguard, if_neg (fun h => by simp at h)]
        exact ih _ _ (by omega) hchildLe (by omega)
      · have hguard : ¬ (1 <= idx ∧ 2 * idx <= queue.elements) := by omega
        rw [if_neg hin, if_neg hguard]

theorem downheapClimb_eq_climbPlace (queue : MyQueue ctx) (element : Ptr)
    (startIdx : Nat)
    (fuel idx : Nat) (root : Nat -> Ptr) (hfuel : idx < fuel) :
    exists hole root',
      downheapClimb queue element startIdx fuel idx root =
          some (hole, root') ∧
        Function.update root' hole element =
          climbPlace queue.before element startIdx idx root := by
  induction fuel generalizing idx root with
  | zero => omega
  | succ fuel ih =>
      rw [downheapClimb, climbPlace]
      by_cases hstart : startIdx < idx / 2
      · by_cases hbefore : queue.before (root (idx / 2)) element
        · have hsign : queue.compareKeys (root (idx / 2)) element < 0 := hbefore
          have hguard : ¬ (startIdx < idx / 2 ∧
              ¬ queue.before (root (idx / 2)) element) :=
            fun h => h.right hbefore
          rw [if_neg hguard]
          simp only [gt_iff_lt, if_pos hstart, if_pos hsign]
          exact ⟨idx, root, rfl, rfl⟩
        · have hsign : ¬ queue.compareKeys (root (idx / 2)) element < 0 :=
            hbefore
          have hguard : startIdx < idx / 2 ∧
              ¬ queue.before (root (idx / 2)) element := ⟨hstart, hbefore⟩
          rw [if_pos hguard]
          simp only [gt_iff_lt, if_pos hstart, if_neg hsign]
          exact ih (idx / 2) _ (by omega)
      · have hguard : ¬ (startIdx < idx / 2 ∧
            ¬ queue.before (root (idx / 2)) element) :=
          fun h => hstart h.left
        rw [if_neg hguard]
        simp only [gt_iff_lt, if_neg hstart]
        exact ⟨idx, root, rfl, rfl⟩

/-- `_downheap` is the bottom-up sift of the element it starts at. -/
theorem downheap_eq_bounceDown (hvalid : queue.ValidCompare) {idx : Nat}
    (hidx : 1 <= idx) :
    downheap queue idx =
      some { queue with
        root := bounceDown queue.before (queue.root idx) queue.elements idx
          queue.root } := by
  have hhalf := firstChild_half queue.before queue.root queue.elements idx
  simp only [downheap, downheapSink, nextIndex_eq_firstChild hvalid]
  by_cases hin : idx <= queue.elements / 2
  · have hchildLe : firstChild queue.before queue.root queue.elements idx <=
        queue.elements := firstChild_le (by omega)
    by_cases hbefore : queue.before
        (queue.root (firstChild queue.before queue.root queue.elements idx))
        (queue.root idx)
    · have hfirst : ¬ queue.compareKeys
          (queue.root (firstChild queue.before queue.root queue.elements idx))
          (queue.root idx) >= 0 :=
        fun h => (compareKeys_nonneg_iff queue _ _).mp h hbefore
      rw [bounceDown_of_sink hidx (by omega) hbefore]
      simp only [hin, if_true, hfirst, and_false, if_false,
        downheapSink_eq_sinkLeaf hvalid (queue.root idx) queue.elements _ _
          (by omega) hchildLe (by omega)]
      generalize sinkLeaf queue.before queue.elements _ _ = sunk
      rcases downheapClimb_eq_climbPlace queue (queue.root idx) idx
          (sunk.1 + 1) sunk.1 sunk.2 (by omega) with
        ⟨hole, root', hclimb, hroot⟩
      simp only [hclimb, hroot]
    · have hfirst : queue.compareKeys
          (queue.root (firstChild queue.before queue.root queue.elements idx))
          (queue.root idx) >= 0 :=
        (compareKeys_nonneg_iff queue _ _).mpr hbefore
      rw [bounceDown_of_stay (fun _ => hbefore)]
      simp [hin, hfirst]
  · have hclimb : downheapClimb queue (queue.root idx) idx (idx + 1) idx
        queue.root = some (idx, queue.root) := by
      rw [downheapClimb, if_neg (by omega)]
    rw [bounceDown_of_stay (fun hn => by omega)]
    simp [hin, hclimb]

/-- Over a heap with a hole on top, `_downheap` leaves the same array as the
textbook sift down. -/
theorem downheap_eq_siftDown (hvalid : queue.ValidCompare) {idx : Nat}
    (hidx : 1 <= idx)
    (hbelow : OrderedBelow queue.before idx queue.root queue.elements) :
    downheap queue idx =
      some { queue with
        root := siftDown queue.before (queue.root idx) queue.elements idx
          queue.root } := by
  rw [downheap_eq_bounceDown hvalid hidx,
    bounceDown_eq_siftDown (before_strictWeakOrder hvalid) hidx hbelow]

end Queue
end MyLibs
