import Mathlib.Logic.Relation
import Mathlib.Data.List.Sort
import MyLibs.Queue.Operations

/-!
# Runs of the priority queue

A queue set up by `queue_init` and driven by insertions, removals of the top,
replacements of the top and resizes holds a multiset in heap order, as long as
the size passed to `queue_resize` leaves room for the sentinel slot: the sum
`max_elements + 1` is computed in 32 bits, and at the largest size the new block
has no slot at all.
-/

namespace MyLibs
namespace Queue

open Foundation
open Foundation.BinaryHeap

variable {ctx : Type _}

inductive QueueStep (sizes : Nat -> Prop) :
    MyQueue ctx -> MyQueue ctx -> Prop where
  | insert {queue queue' : MyQueue ctx} (element : Ptr) :
      queue.elements < queue.maxElements ->
      queueInsert queue element = some queue' ->
      QueueStep sizes queue queue'
  | remove {queue queue' : MyQueue ctx} (element : Ptr) :
      0 < queue.elements ->
      queueRemove queue 0 = some (element, queue') ->
      QueueStep sizes queue queue'
  | replaceTop {queue queue' : MyQueue ctx} (element : Ptr) :
      queueReplaced
        { queue with root := Function.update queue.root 1 element } =
        some queue' ->
      QueueStep sizes queue queue'
  | resize (queue : MyQueue ctx) (maxElements : Nat)
      (block : Option (Nat -> Ptr)) :
      sizes maxElements ->
      QueueStep sizes queue (queueResize queue maxElements block).2

def QueueReachable (sizes : Nat -> Prop) (start queue : MyQueue ctx) : Prop :=
  Relation.ReflTransGen (QueueStep sizes) start queue

def LeavesSentinelSlot (maxElements : Nat) : Prop :=
  maxElements + 1 < 2 ^ 32

structure MyQueue.Sound (queue : MyQueue ctx) : Prop where
  compare : queue.ValidCompare
  order : queue.InHeapOrder
  room : queue.elements <= queue.maxElements
  width : queue.maxElements + 1 < 2 ^ 32
  bytes : queue.rootBytes = rootRequest queue.maxElements

theorem queueInit_sound {uninit queue : MyQueue ctx}
    {maxElements offsetToKey : Nat} {maxAtTop : Bool}
    {compare : ctx -> Ptr -> Ptr -> Int32} {firstCmpArg : ctx}
    {block : Option (Nat -> Ptr)}
    (hinit : queueInit uninit maxElements offsetToKey maxAtTop compare
      firstCmpArg block = (0, queue))
    (hwidth : LeavesSentinelSlot maxElements)
    (hcompare : queue.ValidCompare) :
    queue.Sound ∧ queue.elements = 0 ∧ queue.maxElements = maxElements := by
  cases block with
  | none =>
      simp [queueInit] at hinit
  | some root =>
      have hqueue : queue.elements = 0 ∧ queue.maxElements = maxElements ∧
          queue.rootBytes = rootRequest maxElements := by
        simp only [queueInit, queueSetMaxAtTop, Prod.mk.injEq, true_and] at hinit
        rw [← hinit]
        exact ⟨rfl, rfl, rfl⟩
      rcases hqueue with ⟨hempty, hmax, hbytes⟩
      refine ⟨⟨hcompare, ?_, by omega, by rw [hmax]; exact hwidth, ?_⟩,
        hempty, hmax⟩
      · intro i hi hin
        omega
      · rw [hbytes, hmax]

/-!
## What one call does
-/

theorem MyQueue.Sound.insert {queue : MyQueue ctx} (h : queue.Sound) (element : Ptr)
    (hroom : queue.elements < queue.maxElements) :
    exists queue', queueInsert queue element = some queue' ∧ queue'.Sound ∧
      queue'.contents = element ::ₘ queue.contents ∧
      queue'.elements = queue.elements + 1 ∧
      queue'.maxElements = queue.maxElements ∧
      queue'.before = queue.before := by
  rcases queueInsert_spec h.compare h.order element hroom with
    ⟨root, hinsert, horder, hbag⟩
  refine ⟨_, hinsert, ⟨?_, horder, hroom, h.width, h.bytes⟩, hbag, rfl, rfl, rfl⟩
  exact ValidCompare.withRoot h.compare root (queue.elements + 1)

theorem MyQueue.Sound.remove {queue : MyQueue ctx} (h : queue.Sound)
    (hpos : 0 < queue.elements) :
    exists queue',
      queueRemove queue 0 = some (queueTop queue, queue') ∧ queue'.Sound ∧
      queue.contents = queueTop queue ::ₘ queue'.contents ∧
      queue'.elements = queue.elements - 1 ∧
      queue'.maxElements = queue.maxElements ∧
      queue'.before = queue.before := by
  have hwidth := h.width
  have hroom := h.room
  have hremove := queueRemove_eq_siftDown h.compare h.order hpos hroom
    (by omega)
  have horder := queueRemove_heapOrdered h.compare h.order hpos
    (fun hzero => absurd hzero (Nat.lt_irrefl 0))
  refine ⟨_, hremove, ⟨?_, horder, Nat.le_trans (Nat.sub_le _ _) hroom, hwidth,
    h.bytes⟩, queueRemove_contents h.compare h.order hpos, rfl, rfl, rfl⟩
  exact ValidCompare.withRoot h.compare _ (queue.elements - 1)

theorem MyQueue.Sound.replaceTop {queue : MyQueue ctx} (h : queue.Sound)
    (element : Ptr) :
    exists queue',
      queueReplaced
          { queue with root := Function.update queue.root 1 element } =
          some queue' ∧
      queue'.Sound ∧
      (0 < queue.elements ->
        queueTop queue ::ₘ queue'.contents = element ::ₘ queue.contents) ∧
      queue'.maxElements = queue.maxElements := by
  rcases queueReplaced_spec h.compare h.order element with
    ⟨root, hreplace, horder, hbag⟩
  refine ⟨_, hreplace, ⟨?_, horder, h.room, h.width, h.bytes⟩, hbag, rfl⟩
  exact ValidCompare.withRoot h.compare root queue.elements

theorem MyQueue.Sound.resize {queue : MyQueue ctx} (h : queue.Sound)
    {maxElements : Nat} (hwidth : LeavesSentinelSlot maxElements)
    (block : Option (Nat -> Ptr)) :
    (queueResize queue maxElements block).2.Sound ∧
      ((queueResize queue maxElements block).1 = 0 ->
        (queueResize queue maxElements block).2.contents <= queue.contents ∧
        (queueResize queue maxElements block).2.contents.card =
          min queue.elements maxElements) ∧
      ((queueResize queue maxElements block).1 ≠ 0 ->
        (queueResize queue maxElements block).2 = queue) := by
  have hroom := h.room
  by_cases hsame : queue.maxElements = maxElements
  · unfold queueResize
    rw [if_pos hsame]
    refine ⟨h, fun _ => ⟨le_refl _, ?_⟩, fun hne => absurd rfl hne⟩
    simp only [MyQueue.contents, card_bag]
    omega
  · cases block with
    | none =>
        rw [queueResize_failed hsame (rootRequest_ne_zero hwidth)]
        exact ⟨h, fun hzero => by simp at hzero, fun _ => rfl⟩
    | some fresh =>
        unfold queueResize
        rw [if_neg hsame]
        have hkept := queueResize_contents hroom h.width h.bytes hwidth fresh
        refine ⟨⟨?_, ?_, Nat.min_le_right _ _, hwidth, rfl⟩, fun _ => ⟨?_, ?_⟩,
          fun hne => absurd rfl hne⟩
        · exact ⟨h.compare.preorder, h.compare.notMin, h.compare.sign⟩
        · exact (HeapOrdered.mono h.order (Nat.min_le_left _ _)).congr hkept
        · simp only [MyQueue.contents]
          rw [← bag_congr hkept]
          exact bag_le_bag _ (Nat.min_le_left _ _)
        · exact card_bag _ _

theorem MyQueue.Sound.step {queue queue' : MyQueue ctx} (h : queue.Sound)
    (hstep : QueueStep LeavesSentinelSlot queue queue') : queue'.Sound := by
  cases hstep with
  | insert element hroom hinsert =>
      rcases h.insert element hroom with ⟨next, hnext, hsound, _⟩
      rw [hinsert] at hnext
      cases hnext
      exact hsound
  | remove element hpos hremove =>
      rcases h.remove hpos with ⟨next, hnext, hsound, _⟩
      rw [hremove] at hnext
      cases hnext
      exact hsound
  | replaceTop element hreplace =>
      rcases h.replaceTop element with ⟨next, hnext, hsound, _⟩
      rw [hreplace] at hnext
      cases hnext
      exact hsound
  | resize maxElements block hwidth =>
      exact (h.resize hwidth block).left

theorem MyQueue.Sound.reachable {start queue : MyQueue ctx} (h : start.Sound)
    (hrun : QueueReachable LeavesSentinelSlot start queue) : queue.Sound := by
  induction hrun with
  | refl => exact h
  | tail _ hstep ih => exact ih.step hstep

/-!
## Filling and draining
-/

def insertAll (queue : MyQueue ctx) : List Ptr -> Option (MyQueue ctx)
  | [] => some queue
  | element :: rest =>
      match queueInsert queue element with
      | none => none
      | some queue => insertAll queue rest

def drain : Nat -> MyQueue ctx -> Option (List Ptr × MyQueue ctx)
  | 0, queue => some ([], queue)
  | n + 1, queue =>
      match queueRemove queue 0 with
      | none => none
      | some (element, queue) =>
          match drain n queue with
          | none => none
          | some (rest, queue) => some (element :: rest, queue)

theorem MyQueue.Sound.insertAll {queue : MyQueue ctx} (h : queue.Sound)
    (elements : List Ptr)
    (hroom : queue.elements + elements.length <= queue.maxElements) :
    exists queue', insertAll queue elements = some queue' ∧ queue'.Sound ∧
      queue'.contents = elements + queue.contents ∧
      queue'.before = queue.before := by
  induction elements generalizing queue with
  | nil => exact ⟨queue, rfl, h, by simp, rfl⟩
  | cons element rest ih =>
      simp only [List.length_cons] at hroom
      rcases h.insert element (by omega) with
        ⟨next, hnext, hsound, hcontents, hcount, hmax, hbefore⟩
      rcases ih hsound (by omega) with ⟨last, hlast, hlastSound, hall, horder⟩
      refine ⟨last, ?_, hlastSound, ?_, horder.trans hbefore⟩
      · simp only [Queue.insertAll, hnext, hlast]
      · rw [hall, hcontents, ← Multiset.cons_coe, Multiset.cons_add,
          Multiset.add_cons]

theorem MyQueue.Sound.drain {queue : MyQueue ctx} (h : queue.Sound) (n : Nat)
    (hn : queue.elements = n) :
    exists out queue', drain n queue = some (out, queue') ∧
      (out : Multiset Ptr) = queue.contents ∧
      out.Pairwise (fun x y => ¬ queue.before y x) := by
  induction n generalizing queue with
  | zero =>
      refine ⟨[], queue, rfl, ?_, List.Pairwise.nil⟩
      simp [MyQueue.contents, hn]
  | succ n ih =>
      rcases h.remove (by omega) with
        ⟨next, hnext, hsound, hcontents, hcount, hmax, hbefore⟩
      rcases ih hsound (by omega) with ⟨out, last, hlast, hout, hsorted⟩
      refine ⟨queueTop queue :: out, last, ?_, ?_, List.Pairwise.cons ?_ ?_⟩
      · simp only [Queue.drain, hnext, hlast]
      · rw [← Multiset.cons_coe, hout, ← hcontents]
      · intro y hy
        apply notBefore_queueTop h.compare h.order
        rw [hcontents]
        apply Multiset.mem_cons_of_mem
        rw [← hout]
        exact Multiset.mem_coe.mpr hy
      · rw [hbefore] at hsorted
        exact hsorted

/-!
## The queue as a multiset
-/

/-- In every state a run reaches, the queue is in heap order and each call
changes the multiset it holds as its name says; filling an empty queue and
draining it sorts. -/
theorem queue_refines_multiset {uninit start queue : MyQueue ctx}
    {maxElements offsetToKey : Nat} {maxAtTop : Bool}
    {compare : ctx -> Ptr -> Ptr -> Int32} {firstCmpArg : ctx}
    {block : Option (Nat -> Ptr)}
    (hinit : queueInit uninit maxElements offsetToKey maxAtTop compare
      firstCmpArg block = (0, start))
    (hwidth : LeavesSentinelSlot maxElements)
    (hcompare : start.ValidCompare)
    (hrun : QueueReachable LeavesSentinelSlot start queue) :
    queue.InHeapOrder ∧
    (forall element, queue.elements < queue.maxElements ->
      exists queue', queueInsert queue element = some queue' ∧
        queue'.contents = element ::ₘ queue.contents) ∧
    (0 < queue.elements ->
      exists element queue', queueRemove queue 0 = some (element, queue') ∧
        (forall other, other ∈ queue.contents ->
          ¬ queue.before other element) ∧
        queue.contents = element ::ₘ queue'.contents) ∧
    (forall element, exists queue',
      queueReplaced
          { queue with root := Function.update queue.root 1 element } =
        some queue' ∧
      (0 < queue.elements ->
        queueTop queue ::ₘ queue'.contents = element ::ₘ queue.contents)) ∧
    (forall size newBlock, LeavesSentinelSlot size ->
      ((queueResize queue size newBlock).1 = 0 ->
        (queueResize queue size newBlock).2.contents <= queue.contents ∧
        (queueResize queue size newBlock).2.contents.card =
          min queue.elements size) ∧
      ((queueResize queue size newBlock).1 ≠ 0 ->
        (queueResize queue size newBlock).2 = queue)) ∧
    (queue.elements = 0 -> forall elements : List Ptr,
      elements.length <= queue.maxElements ->
      exists full out rest, insertAll queue elements = some full ∧
        drain elements.length full = some (out, rest) ∧
        out.Perm elements ∧
        out.Pairwise (fun x y => ¬ queue.before y x)) := by
  have hsound : queue.Sound :=
    (queueInit_sound hinit hwidth hcompare).left.reachable hrun
  refine ⟨hsound.order, ?_, ?_, ?_, ?_, ?_⟩
  · intro element hroom
    rcases hsound.insert element hroom with ⟨next, hnext, _, hcontents, _⟩
    exact ⟨next, hnext, hcontents⟩
  · intro hpos
    rcases hsound.remove hpos with ⟨next, hnext, _, hcontents, _⟩
    refine ⟨queueTop queue, next, hnext, ?_, hcontents⟩
    intro other hother
    exact notBefore_queueTop hsound.compare hsound.order hother
  · intro element
    rcases hsound.replaceTop element with ⟨next, hnext, _, hcontents, _⟩
    exact ⟨next, hnext, hcontents⟩
  · intro size newBlock hsize
    exact (hsound.resize hsize newBlock).right
  · intro hempty elements hroom
    rcases hsound.insertAll elements (by omega) with
      ⟨full, hfull, hfullSound, hcontents, hbefore⟩
    have hnone : queue.contents = 0 := by
      simp [MyQueue.contents, hempty]
    rw [hnone, Multiset.add_zero] at hcontents
    have hcount : full.elements = elements.length := by
      have hcard := congrArg Multiset.card hcontents
      simpa [MyQueue.contents] using hcard
    rcases hfullSound.drain elements.length hcount with
      ⟨out, rest, hdrain, hout, hsorted⟩
    rw [hbefore] at hsorted
    refine ⟨full, out, rest, hfull, hdrain, ?_, hsorted⟩
    rw [hcontents] at hout
    exact Multiset.coe_eq_coe.mp hout

def byAddress (_ : Unit) (x y : Ptr) : Int32 :=
  if x < y then -1 else if y < x then 1 else 0

def tenSlots : MyQueue Unit where
  root := fun _ => 0
  rootBytes := rootRequest 10
  firstCmpArg := ()
  elements := 0
  maxElements := 10
  offsetToKey := 0
  maxAtTop := 1
  compare := byAddress
  autoExtent := 0

theorem byAddress_neg_iff (x y : Nat) :
    (byAddress () x y).toInt < 0 <-> x < y := by
  unfold byAddress
  rcases Nat.lt_trichotomy x y with hlt | heq | hgt
  · simp [hlt]
  · simp [heq]
  · simp [hgt, Nat.lt_asymm hgt]

theorem byAddress_pos_iff (x y : Nat) :
    0 < (byAddress () x y).toInt <-> y < x := by
  unfold byAddress
  rcases Nat.lt_trichotomy x y with hlt | heq | hgt
  · simp [hlt, Nat.lt_asymm hlt]
  · simp [heq]
  · simp [hgt, Nat.lt_asymm hgt]

theorem byAddress_validCompare {queue : MyQueue Unit}
    (hcompare : queue.compare = byAddress) (hoffset : queue.offsetToKey = 0)
    (hsign : queue.maxAtTop = 1 ∨ queue.maxAtTop = -1) :
    queue.ValidCompare := by
  have helements : forall x y, queue.compareElements x y = byAddress () x y := by
    intro x y
    simp [MyQueue.compareElements, hcompare, hoffset]
  refine ⟨⟨?_, ?_⟩, ?_, hsign⟩
  · intro x y
    rw [helements, helements]
    exact (byAddress_pos_iff x y).trans (byAddress_neg_iff y x).symm
  · intro x y z
    rw [helements, helements, helements]
    intro hxy hyz
    have hxyNot := (byAddress_pos_iff x y).not.mp (Int.not_lt.mpr hxy)
    have hyzNot := (byAddress_pos_iff y z).not.mp (Int.not_lt.mpr hyz)
    apply Int.not_lt.mp
    intro hpos
    have hzx := (byAddress_pos_iff x z).mp hpos
    exact hyzNot (Nat.lt_of_lt_of_le hzx (Nat.not_lt.mp hxyNot))
  · intro x y
    rw [helements]
    unfold byAddress
    split
    · decide
    · split <;> decide

theorem tenSlots_init :
    queueInit tenSlots 10 0 false byAddress () (some fun _ => 0) =
      (0, tenSlots) := rfl

theorem queue_refines_multiset_tenSlots :
    exists full out rest, insertAll tenSlots [9, 4, 7] = some full ∧
      drain 3 full = some (out, rest) ∧ out.Perm [9, 4, 7] ∧
      out.Pairwise (fun x y => ¬ tenSlots.before y x) :=
  (queue_refines_multiset tenSlots_init (by decide : 10 + 1 < 2 ^ 32)
    (byAddress_validCompare rfl rfl (Or.inl rfl))
    Relation.ReflTransGen.refl).right.right.right.right.right rfl [9, 4, 7]
    (by decide)

/-- At the largest size the request for slots wraps to no bytes, and a queue
of one element is left with whatever the new block holds. -/
theorem queueResize_largest_loses_element :
    exists queue : MyQueue Unit,
      QueueReachable (fun size => size < 2 ^ 32) tenSlots queue ∧
      tenSlots.ValidCompare ∧
      queueInsert tenSlots 7 = some queue ∧
      (queueResize queue (2 ^ 32 - 1) (some fun _ => 0)).1 = 0 ∧
      ¬ (queueResize queue (2 ^ 32 - 1) (some fun _ => 0)).2.contents <=
        queue.contents := by
  have hvalid : tenSlots.ValidCompare :=
    byAddress_validCompare rfl rfl (Or.inl rfl)
  have hinsert := queueInsert_eq_siftUp hvalid 7 (by decide : (0 : Nat) < 10)
  refine ⟨_, Relation.ReflTransGen.single
    (QueueStep.insert 7 (by decide : (0 : Nat) < 10) hinsert), hvalid, hinsert,
    rfl, ?_⟩
  intro hle
  have hzero : (0 : Ptr) ∈ bag (fun _ : Nat => (0 : Ptr)) 1 :=
    mem_bag.mpr ⟨1, by decide, by decide, rfl⟩
  have hseven := Multiset.mem_of_le hle hzero
  rcases mem_bag.mp hseven with ⟨i, hi, hin, hvalue⟩
  have hone : i = 1 := Nat.le_antisymm hin hi
  subst hone
  rw [siftUp, if_neg (by decide)] at hvalue
  exact absurd hvalue (by decide)

end Queue
end MyLibs
