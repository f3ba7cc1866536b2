import MyLibs.Queue.Sifts

/-!
# What the queue operations do

Each operation of the queue is described by what it does to the multiset of
elements and by the heap order it needs and keeps.
-/

namespace MyLibs
namespace Queue

open Foundation
open Foundation.BinaryHeap

variable {ctx : Type _}

def MyQueue.contents (queue : MyQueue ctx) : Multiset Ptr :=
  bag queue.root queue.elements

def MyQueue.InHeapOrder (queue : MyQueue ctx) : Prop :=
  HeapOrdered queue.before queue.root queue.elements

theorem notBefore_queueTop {queue : MyQueue ctx} (hvalid : queue.ValidCompare)
    (hheap : queue.InHeapOrder) {x : Ptr} (hx : x ∈ queue.contents) :
    ¬ queue.before x (queueTop queue) :=
  hheap.notBefore_top_of_mem (before_strictWeakOrder hvalid) hx

theorem ValidCompare.withRoot {queue : MyQueue ctx}
    (h : queue.ValidCompare) (root : Nat -> Ptr) (elements : Nat) :
    { queue with root := root, elements := elements }.ValidCompare :=
  ⟨h.preorder, h.notMin, h.sign⟩

/-!
## Insertion
-/

theorem queueInsert_spec {queue : MyQueue ctx} (hvalid : queue.ValidCompare)
    (hheap : queue.InHeapOrder) (element : Ptr)
    (hroom : queue.elements < queue.maxElements) :
    exists root,
      queueInsert queue element =
          some { queue with elements := queue.elements + 1, root := root } ∧
        HeapOrdered queue.before root (queue.elements + 1) ∧
        bag root (queue.elements + 1) = element ::ₘ queue.contents := by
  have hsentinel : HeapOrdered queue.before
      (Function.update queue.root 0 element) queue.elements := by
    apply hheap.congr
    intro i hi _hin
    rw [Function.update_of_ne (by omega : i ≠ 0)]
  have hsift := siftUp_spec (before_strictWeakOrder hvalid)
    (hsentinel.climbOrder_append element) (by omega) (by omega)
  refine ⟨_, queueInsert_eq_siftUp hvalid element hroom, hsift.left, ?_⟩
  have hbag := hsift.right
  rw [bag_succ (Function.update queue.root 0 element),
    bag_update_outside queue.root element (Or.inl rfl),
    Multiset.cons_swap] at hbag
  exact (Multiset.cons_inj_right _).mp hbag

/-!
## Replacing the top
-/

theorem HeapOrdered.sinkOrder_top {α : Type _} {before : α -> α -> Prop}
    {a : Nat -> α} {n : Nat} (h : HeapOrdered before a n) (x : α) :
    SinkOrder before 1 (Function.update a 1 x) n 1 x where
  offHole := by
    intro i hi hin _hk hne hparent
    rw [Function.update_of_ne hne, Function.update_of_ne hparent]
    exact h i hi hin
  overHole := by
    intro hone
    omega
  acrossHole := by
    intro hone
    omega

theorem queueReplaced_spec {queue : MyQueue ctx} (hvalid : queue.ValidCompare)
    (hheap : queue.InHeapOrder) (element : Ptr) :
    exists root,
      queueReplaced
          { queue with root := Function.update queue.root 1 element } =
          some { queue with root := root } ∧
        HeapOrdered queue.before root queue.elements ∧
        (0 < queue.elements ->
          queueTop queue ::ₘ bag root queue.elements =
            element ::ₘ queue.contents) := by
  have hw := before_strictWeakOrder hvalid
  have hsink := HeapOrdered.sinkOrder_top hheap element
  have hbelow : OrderedBelow queue.before 1
      (Function.update queue.root 1 element) queue.elements := by
    intro i hin hbelow
    have hlt := hbelow.lt (by omega)
    rw [Function.update_of_ne (by omega : i ≠ 1),
      Function.update_of_ne (by omega : i / 2 ≠ 1)]
    exact hheap i (by omega) hin
  have hdown := downheap_eq_siftDown
    (ValidCompare.withRoot hvalid (Function.update queue.root 1 element)
      queue.elements) (Nat.le_refl 1) hbelow
  refine ⟨_, hdown, ?_⟩
  simp only [Function.update_self]
  by_cases hempty : queue.elements = 0
  · constructor
    · intro i hi hin
      omega
    · intro hpos
      omega
  · have hspec := siftDown_spec hw hsink (Nat.le_refl 1) (Nat.le_refl 1)
      (by omega : 1 <= queue.elements)
    constructor
    · exact heapOrdered_iff_orderedFrom_one.mpr hspec.left
    · intro hpos
      have hbag := hspec.right
      rw [Function.update_self] at hbag
      have hsame := (Multiset.cons_inj_right _).mp hbag
      exact hsame ▸ bag_update queue.root element (Nat.le_refl 1) hpos

/-!
## Removal
-/

def MyQueue.refilled (queue : MyQueue ctx) (idx : Nat) : Nat -> Ptr :=
  Function.update queue.root (idx + 1) (queue.root queue.elements)

theorem refilled_orderedBelow {queue : MyQueue ctx}
    (hheap : queue.InHeapOrder) (idx : Nat) :
    OrderedBelow queue.before (idx + 1) (queue.refilled idx)
      (queue.elements - 1) := by
  intro i hin hbelow
  have hlt := hbelow.lt (by omega)
  unfold MyQueue.refilled
  rw [Function.update_of_ne (by omega : i ≠ idx + 1),
    Function.update_of_ne (by omega : i / 2 ≠ idx + 1)]
  exact hheap i (by omega) (by omega)

/-- Any removal is one textbook sift of the former last element. -/
theorem queueRemove_eq_siftDown {queue : MyQueue ctx}
    (hvalid : queue.ValidCompare) (hheap : queue.InHeapOrder) {idx : Nat}
    (hidx : idx < queue.elements) (hmax : queue.elements <= queue.maxElements)
    (hwidth : queue.maxElements < 2 ^ 32) :
    queueRemove queue idx =
      some (queue.root (idx + 1),
        { queue with
          elements := queue.elements - 1
          root := siftDown queue.before (queue.root queue.elements)
            (queue.elements - 1) (idx + 1) (queue.refilled idx) }) := by
  have hdown := downheap_eq_siftDown
    (ValidCompare.withRoot hvalid (queue.refilled idx) (queue.elements - 1))
    (by omega : 1 <= idx + 1) (refilled_orderedBelow hheap idx)
  have htop : queue.refilled idx (idx + 1) = queue.root queue.elements :=
    Function.update_self _ _ _
  simp only [htop] at hdown
  unfold queueRemove
  rw [if_pos (by omega), uint_pred (by omega) (by omega)]
  simp only [MyQueue.refilled] at hdown ⊢
  rw [hdown]
  rfl

theorem refilled_sinkOrder {queue : MyQueue ctx} (hvalid : queue.ValidCompare)
    (hheap : queue.InHeapOrder) {k idx : Nat}
    (hidx : idx + 1 < queue.elements)
    (hparent : 0 < idx -> k <= (idx + 1) / 2 ->
      ¬ queue.before (queue.root queue.elements) (queue.root ((idx + 1) / 2))) :
    SinkOrder queue.before k (queue.refilled idx) (queue.elements - 1) (idx + 1)
      (queue.root queue.elements) where
  offHole := by
    intro i hi hin _hk hne hhalf
    unfold MyQueue.refilled
    rw [Function.update_of_ne hne, Function.update_of_ne hhalf]
    exact hheap i hi (by omega)
  overHole := by
    intro hone hk
    unfold MyQueue.refilled
    rw [Function.update_of_ne (by omega : (idx + 1) / 2 ≠ idx + 1)]
    exact hparent (by omega) hk
  acrossHole := by
    intro hone _hk c hcn hc
    unfold MyQueue.refilled
    rw [Function.update_of_ne (by omega : (idx + 1) / 2 ≠ idx + 1),
      Function.update_of_ne (by omega : c ≠ idx + 1)]
    have hchild := hheap c (by omega) (by omega)
    rw [hc] at hchild
    exact (before_strictWeakOrder hvalid).negTrans _ _ _ hchild
      (hheap (idx + 1) hone (by omega))

theorem queueRemove_contents {queue : MyQueue ctx}
    (hvalid : queue.ValidCompare) (hheap : queue.InHeapOrder) {idx : Nat}
    (hidx : idx < queue.elements) :
    queue.contents =
      queue.root (idx + 1) ::ₘ
        bag (siftDown queue.before (queue.root queue.elements)
          (queue.elements - 1) (idx + 1) (queue.refilled idx))
          (queue.elements - 1) := by
  have hpos : queue.elements - 1 + 1 = queue.elements := by omega
  have hsplit := bag_succ queue.root (queue.elements - 1)
  rw [hpos] at hsplit
  by_cases hlast : idx + 1 = queue.elements
  · have hsame : queue.refilled idx = queue.root := by
      unfold MyQueue.refilled
      rw [hlast, Function.update_eq_self]
    rw [siftDown, if_neg (by omega), hsame, ← hlast, Function.update_eq_self,
      hlast]
    exact hsplit
  · have hspec := siftDown_spec (before_strictWeakOrder hvalid)
      (refilled_sinkOrder hvalid hheap (k := idx + 1) (by omega)
        (fun hpos hk => by omega))
      (Nat.le_refl _) (by omega) (by omega)
    have htop : queue.refilled idx (idx + 1) = queue.root queue.elements :=
      Function.update_self _ _ _
    have hsame := hspec.right
    rw [htop] at hsame
    have hrefill := bag_update queue.root (queue.root queue.elements)
      (by omega : 1 <= idx + 1) (by omega : idx + 1 <= queue.elements - 1)
    rw [(Multiset.cons_inj_right _).mp hsame]
    exact hsplit.trans hrefill.symm

/-- Removal keeps the heap unless the last element belongs above the hole. -/
theorem queueRemove_heapOrdered {queue : MyQueue ctx}
    (hvalid : queue.ValidCompare) (hheap : queue.InHeapOrder) {idx : Nat}
    (hidx : idx < queue.elements)
    (hparent : 0 < idx ->
      ¬ queue.before (queue.root queue.elements) (queue.root ((idx + 1) / 2))) :
    HeapOrdered queue.before
      (siftDown queue.before (queue.root queue.elements) (queue.elements - 1)
        (idx + 1) (queue.refilled idx)) (queue.elements - 1) := by
  by_cases hlast : idx + 1 = queue.elements
  · have hsame : queue.refilled idx = queue.root := by
      unfold MyQueue.refilled
      rw [hlast, Function.update_eq_self]
    rw [siftDown, if_neg (by omega), hsame, ← hlast, Function.update_eq_self]
    exact HeapOrdered.mono hheap (by omega)
  · have hspec := siftDown_spec (before_strictWeakOrder hvalid)
      (refilled_sinkOrder hvalid hheap (k := 1) (by omega)
        (fun hpos _ => hparent hpos))
      (by omega) (by omega) (by omega)
    exact heapOrdered_iff_orderedFrom_one.mpr hspec.left

/-!
## Resizing
-/

theorem le_rootRequest {maxElements i : Nat} (hwidth : maxElements + 1 < 2 ^ 32)
    (hi : i <= maxElements) : (i + 1) * sizeofPtr <= rootRequest maxElements := by
  unfold rootRequest
  rw [uint_of_lt hwidth]
  exact Nat.mul_le_mul_right _ (by omega)

theorem rootRequest_ne_zero {maxElements : Nat} (hwidth : maxElements + 1 < 2 ^ 32) :
    rootRequest maxElements ≠ 0 := by
  have hslot := le_rootRequest hwidth (Nat.le_refl maxElements)
  unfold sizeofPtr at hslot
  omega

/-- A resize that fails frees the block only if it asked for no bytes. -/
theorem queueResize_failed {queue : MyQueue ctx} {maxElements : Nat}
    (hne : queue.maxElements ≠ maxElements) (hrequest : rootRequest maxElements ≠ 0) :
    queueResize queue maxElements none = (1, queue) := by
  unfold queueResize
  rw [if_neg hne]
  simp only [if_neg hrequest]

theorem queueResize_contents {queue : MyQueue ctx} {maxElements : Nat}
    (hmax : queue.elements <= queue.maxElements)
    (hwidth : queue.maxElements + 1 < 2 ^ 32)
    (hbytes : queue.rootBytes = rootRequest queue.maxElements)
    (hwidth' : maxElements + 1 < 2 ^ 32) (fresh : Nat -> Ptr) :
    forall i, 1 <= i -> i <= min queue.elements maxElements ->
      queue.root i =
        reallocRoot queue.root queue.rootBytes (rootRequest maxElements)
          fresh i := by
  intro i _hi hin
  have hold := le_rootRequest hwidth (i := i) (by omega)
  have hnew := le_rootRequest hwidth' (i := i) (by omega)
  unfold reallocRoot
  rw [if_pos]
  rw [hbytes]
  exact Nat.le_min.mpr ⟨hold, hnew⟩

end Queue
end MyLibs
