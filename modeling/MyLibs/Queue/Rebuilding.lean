import MyLibs.Queue.Runs

/-!
# The textbook sift, and building a heap

`_downheap` against the sift down it optimises, which compares the element at every
level and never climbs back, and `queue_fix`, which makes a heap of any elements.
-/

namespace MyLibs
namespace Queue

open Foundation
open Foundation.BinaryHeap

variable {ctx : Type _} {queue : MyQueue ctx}

/-!
## The textbook sift down
-/

/-- The loop of the textbook version: the first child moves up, the left one of two
equal ones, until it is not before the element. -/
def plainSink (queue : MyQueue ctx) (element : Ptr) :
    Nat -> Nat -> (Nat -> Ptr) -> Option (Nat -> Ptr)
  | 0, _, _ => none
  | fuel + 1, idx, root =>
      if idx <= queue.elements / 2 then
        let nextIndex := idx + idx
        let nextIndex :=
          if nextIndex < queue.elements ∧
              queue.compareKeys (root nextIndex) (root (nextIndex + 1)) > 0 then
            nextIndex + 1
          else
            nextIndex
        if queue.compareKeys (root nextIndex) element >= 0 then
          some (Function.update root idx element)
        else
          plainSink queue element fuel nextIndex
            (Function.update root idx (root nextIndex))
      else
        some (Function.update root idx element)

def plainDownheap (queue : MyQueue ctx) (idx : Nat) : Option (MyQueue ctx) :=
  (plainSink queue (queue.root idx) (queue.elements + 1) idx queue.root).map
    fun root => { queue with root := root }

theorem plainSink_eq_siftDown (hvalid : queue.ValidCompare) (element : Ptr)
    (fuel idx : Nat) (root : Nat -> Ptr) (hidx : 1 <= idx) (hle : idx <= queue.elements)
    (hfuel : queue.elements < fuel + idx) :
    plainSink queue element fuel idx root =
      some (siftDown queue.before element queue.elements idx root) := by
  induction fuel generalizing idx root with
  | zero => omega
  | succ fuel ih =>
      have hhalf := firstChild_half queue.before root queue.elements idx
      rw [plainSink, siftDown]
      simp only [nextIndex_eq_firstChild hvalid, ge_iff_le]
      by_cases hin : idx <= queue.elements / 2
      · have hguard : 1 <= idx ∧ 2 * idx <= queue.elements := by omega
        have hchildLe : firstChild queue.before root queue.elements idx <=
            queue.elements := firstChild_le hguard.right
        have hstop := compareKeys_nonneg_iff queue
          (root (firstChild queue.before root queue.elements idx)) element
        rw [if_pos hin, if_pos hguard]
        by_cases hbefore : queue.before
            (root (firstChild queue.before root queue.elements idx)) element
        · rw [if_neg (fun hnonneg => hstop.mp hnonneg hbefore), if_pos hbefore]
          exact ih _ _ (by omega) hchildLe (by omega)
        · rw [if_pos (hstop.mpr hbefore), if_neg hbefore]
      · have hguard : ¬ (1 <= idx ∧ 2 * idx <= queue.elements) := by omega
        rw [if_neg hin, if_neg hguard]

/-- The optimised `_downheap` leaves the same array as the textbook version, wherever
it starts above elements in heap order. -/
theorem downheap_eq_plainDownheap (hvalid : queue.ValidCompare) {idx : Nat}
    (hidx : 1 <= idx) (hle : idx <= queue.elements)
    (hbelow : OrderedBelow queue.before idx queue.root queue.elements) :
    (plainDownheap queue idx).isSome = true ∧
      downheap queue idx = plainDownheap queue idx := by
  have hplain := plainSink_eq_siftDown hvalid (queue.root idx) (queue.elements + 1) idx
    queue.root hidx hle (by omega)
  unfold plainDownheap
  rw [hplain]
  exact ⟨rfl, downheap_eq_siftDown hvalid hidx hbelow⟩

/-!
## `queue_fix`
-/

theorem queueFixLoop_eq_buildHeap (hvalid : queue.ValidCompare) {k : Nat}
    (hk : k <= queue.elements)
    (horder : OrderedFrom queue.before (k + 1) queue.root queue.elements) :
    queueFixLoop k queue =
      some { queue with
        root := buildHeap queue.before queue.elements k queue.root } := by
  induction k generalizing queue with
  | zero => rfl
  | succ k ih =>
      have hdown := downheap_eq_siftDown hvalid (by omega : 1 <= k + 1)
        (horder.orderedBelow (by omega))
      have hnext := horder.siftDown (before_strictWeakOrder hvalid) (by omega) hk
      have hle : k <= queue.elements := by omega
      rw [queueFixLoop, hdown]
      exact ih (ValidCompare.withRoot hvalid _ queue.elements) hle hnext.left

/-- `queue_fix` makes a heap of any elements in any order: it only moves them around
inside the heap. -/
theorem queueFix_builds_heap (hvalid : queue.ValidCompare) :
    exists queue', queueFix queue = some queue' ∧
      queue' = { queue with root := queue'.root } ∧
      queue'.contents = queue.contents ∧ queue'.InHeapOrder ∧
      forall i, i = 0 ∨ queue.elements < i -> queue'.root i = queue.root i := by
  have horder := orderedFrom_last queue.before queue.root queue.elements
  have hfix := queueFixLoop_eq_buildHeap hvalid (Nat.div_le_self ..) horder
  rcases buildHeap_spec (before_strictWeakOrder hvalid) horder (Nat.div_le_self ..) with
    ⟨hheap, hbag, houtside⟩
  exact ⟨_, hfix, rfl, hbag, hheap, houtside⟩

section Examples

def unordered : MyQueue Unit :=
  { tenSlots with
    root := fun i => [0, 3, 1, 4, 1, 5].getD i 0
    elements := 5
    maxAtTop := -1 }

theorem unordered_validCompare : unordered.ValidCompare :=
  byAddress_validCompare rfl rfl (Or.inr rfl)

theorem queueFix_builds_heap_unordered :
    exists queue', queueFix unordered = some queue' ∧
      queue'.contents = unordered.contents ∧ queue'.InHeapOrder := by
  rcases queueFix_builds_heap unordered_validCompare with
    ⟨queue', hfix, _, hcontents, horder, _⟩
  exact ⟨queue', hfix, hcontents, horder⟩

def smallTop : MyQueue Unit :=
  { tenSlots with
    root := fun i => [0, 1, 9, 8, 5, 7, 6, 4, 2, 3].getD i 0
    elements := 9
    maxAtTop := -1 }

theorem smallTop_validCompare : smallTop.ValidCompare :=
  byAddress_validCompare rfl rfl (Or.inr rfl)

theorem smallTop_orderedBelow : OrderedBelow smallTop.before 1 smallTop.root 9 := by
  have hall : forall i, i < 10 -> 2 <= i / 2 ->
      ¬smallTop.before (smallTop.root i) (smallTop.root (i / 2)) := by decide
  intro i hin hbelow
  exact hall i (Nat.lt_succ_of_le hin) (hbelow.lt (by decide))

theorem downheap_eq_plainDownheap_smallTop :
    downheap smallTop 1 = plainDownheap smallTop 1 ∧
      (plainDownheap smallTop 1).map (fun queue => (List.range 10).map queue.root) =
        some [0, 9, 7, 8, 5, 1, 6, 4, 2, 3] :=
  ⟨(downheap_eq_plainDownheap smallTop_validCompare (by decide) (by decide)
    smallTop_orderedBelow).right, by decide⟩

end Examples

end Queue
end MyLibs
