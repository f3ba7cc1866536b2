import MyLibs.Queue.Rebuilding

/-!
# The queue that extends itself

`queue_insert_safe` extends a full queue by `auto_extent`. The new size
`max_elements + auto_extent` and the number of slots `max_elements + 1` are sums of
`unsigned int`: where the first wraps, `queue_resize` cuts the queue off instead of
extending it, and where the second does, the block has no slot at all, or is freed.
-/

namespace MyLibs
namespace Queue

open Foundation
open Foundation.BinaryHeap

variable {ctx : Type _} {queue queue' : MyQueue ctx}

/-!
## Runs
-/

inductive ExtendStep : MyQueue ctx -> MyQueue ctx -> Prop where
  | insert {queue queue' : MyQueue ctx} (element : Ptr) :
      queueInsert queue element = some queue' -> ExtendStep queue queue'
  | insertSafe {queue queue' : MyQueue ctx} (element : Ptr)
      (block : Option (Nat -> Ptr)) (ret : Nat) :
      queueInsertSafe queue element block = some (ret, queue') ->
      ExtendStep queue queue'
  | remove {queue queue' : MyQueue ctx} (idx : Nat) (element : Ptr) :
      idx < queue.elements -> queueRemove queue idx = some (element, queue') ->
      ExtendStep queue queue'
  | replaceTop {queue queue' : MyQueue ctx} (element : Ptr) :
      queueReplaced { queue with root := Function.update queue.root 1 element } =
        some queue' ->
      ExtendStep queue queue'
  | fix {queue queue' : MyQueue ctx} :
      queueFix queue = some queue' -> ExtendStep queue queue'
  | resize (queue : MyQueue ctx) (maxElements : Nat) (block : Option (Nat -> Ptr)) :
      maxElements < 2 ^ 32 ->
      ExtendStep queue (queueResize queue maxElements block).2

/-- `root` points to the block that was last asked for, not to one that has been freed. -/
def MyQueue.HasBlock (queue : MyQueue ctx) : Prop :=
  queue.rootBytes = rootRequest queue.maxElements

/-- A queue that `queue_init_ex` set up with some `unsigned int` sizes, after any calls
of which none has freed its block: no call on a freed one is defined. -/
def SetUp (queue : MyQueue ctx) : Prop :=
  exists (uninit start : MyQueue ctx) (maxElements offsetToKey : Nat) (maxAtTop : Bool)
    (compare : ctx -> Ptr -> Ptr -> Int32) (firstCmpArg : ctx) (autoExtent : Nat)
    (block : Option (Nat -> Ptr)),
    maxElements < 2 ^ 32 ∧ autoExtent < 2 ^ 32 ∧
      queueInitEx uninit maxElements offsetToKey maxAtTop compare firstCmpArg autoExtent
        block = (0, start) ∧
      Relation.ReflTransGen (fun queue queue' => ExtendStep queue queue' ∧ queue'.HasBlock)
        start queue

structure MyQueue.Bounded (queue : MyQueue ctx) : Prop where
  room : queue.elements <= queue.maxElements
  width : queue.maxElements < 2 ^ 32
  extent : queue.autoExtent < 2 ^ 32
  bytes : queue.HasBlock

theorem MyQueue.Bounded.withRoot (h : queue.Bounded) (root : Nat -> Ptr) {elements : Nat}
    (hroom : elements <= queue.maxElements) :
    { queue with root := root, elements := elements }.Bounded :=
  ⟨hroom, h.width, h.extent, h.bytes⟩

/-!
## What a call changes
-/

theorem downheap_changes {idx : Nat} (h : downheap queue idx = some queue') :
    exists root, queue' = { queue with root := root } := by
  unfold downheap at h
  simp only at h
  split at h
  · cases h
  · cases h
    exact ⟨_, rfl⟩
  · split at h
    · cases h
    · cases h
      exact ⟨_, rfl⟩

theorem queueFixLoop_changes {k : Nat} (h : queueFixLoop k queue = some queue') :
    exists root, queue' = { queue with root := root } := by
  induction k generalizing queue with
  | zero => exact ⟨queue.root, (Option.some.inj h).symm⟩
  | succ k ih =>
      rw [queueFixLoop] at h
      split at h
      · cases h
      · rename_i next hnext
        rcases downheap_changes hnext with ⟨root, rfl⟩
        rcases ih h with ⟨root', hroot'⟩
        exact ⟨root', hroot'⟩

theorem queueInsert_changes {element : Ptr} (h : queueInsert queue element = some queue') :
    queue.elements < queue.maxElements ∧ exists root,
      queue' = { queue with root := root, elements := queue.elements + 1 } := by
  unfold queueInsert at h
  split at h
  · rename_i hroom
    simp only at h
    split at h
    · cases h
    · cases h
      exact ⟨hroom, _, rfl⟩
  · cases h

theorem MyQueue.Bounded.resize (h : queue.Bounded) {maxElements : Nat}
    (hwidth : maxElements < 2 ^ 32) {block : Option (Nat -> Ptr)}
    (hblock : (queueResize queue maxElements block).2.HasBlock) :
    (queueResize queue maxElements block).2.Bounded := by
  unfold queueResize at hblock ⊢
  split
  · exact h
  · rename_i hne
    simp only [if_neg hne] at hblock
    cases block with
    | none =>
        simp only at hblock ⊢
        split
        · rename_i hzero
          rw [if_pos hzero] at hblock
          exact ⟨h.room, h.width, h.extent, hblock⟩
        · exact h
    | some fresh => exact ⟨Nat.min_le_right .., hwidth, h.extent, rfl⟩

theorem MyQueue.Bounded.insert (h : queue.Bounded) {element : Ptr}
    (hinsert : queueInsert queue element = some queue') : queue'.Bounded := by
  rcases queueInsert_changes hinsert with ⟨hroom, root, rfl⟩
  exact h.withRoot root hroom

theorem MyQueue.Bounded.insertSafe (h : queue.Bounded) {element : Ptr}
    {block : Option (Nat -> Ptr)} {ret : Nat}
    (hinsert : queueInsertSafe queue element block = some (ret, queue'))
    (hblock : queue'.HasBlock) : queue'.Bounded := by
  have hresized : (queueResize queue (uint (queue.maxElements + queue.autoExtent))
        block).2.HasBlock ->
      (queueResize queue (uint (queue.maxElements + queue.autoExtent)) block).2.Bounded :=
    h.resize (Nat.mod_lt _ (by decide))
  unfold queueInsertSafe at hinsert
  split at hinsert
  · split at hinsert
    · cases hinsert
      exact h
    · generalize queueResize queue _ block = resized at hinsert hresized
      split at hinsert
      · rcases Option.map_eq_some_iff.mp hinsert with ⟨last, hlast, hpair⟩
        cases hpair
        refine (hresized ?_).insert hlast
        rcases queueInsert_changes hlast with ⟨_, root, rfl⟩
        exact hblock
      · cases hinsert
        exact hresized hblock
  · rcases Option.map_eq_some_iff.mp hinsert with ⟨last, hlast, hpair⟩
    cases hpair
    exact h.insert hlast

theorem MyQueue.Bounded.step (h : queue.Bounded) (hstep : ExtendStep queue queue')
    (hblock : queue'.HasBlock) : queue'.Bounded := by
  have hroom := h.room
  have hwidth := h.width
  cases hstep with
  | insert element hinsert => exact h.insert hinsert
  | insertSafe element block ret hinsert => exact h.insertSafe hinsert hblock
  | remove idx element hidx hremove =>
      unfold queueRemove at hremove
      rw [uint_pred (by omega) (by omega)] at hremove
      split at hremove
      · simp only at hremove
        split at hremove
        · cases hremove
        · rename_i last hlast
          cases hremove
          rcases downheap_changes hlast with ⟨root, rfl⟩
          exact h.withRoot root (Nat.le_trans (Nat.sub_le ..) hroom)
      · cases hremove
  | replaceTop element hreplace =>
      rcases downheap_changes hreplace with ⟨root, rfl⟩
      exact h.withRoot root hroom
  | fix hfix =>
      rcases queueFixLoop_changes hfix with ⟨root, rfl⟩
      exact h.withRoot root hroom
  | resize maxElements block hsize => exact h.resize hsize hblock

theorem SetUp.bounded (h : SetUp queue) : queue.Bounded := by
  rcases h with ⟨uninit, start, maxElements, offsetToKey, maxAtTop, compare, firstCmpArg,
    autoExtent, block, hmax, hextent, hinit, hrun⟩
  have hstart : start.Bounded := by
    cases block with
    | none => simp [queueInitEx, queueInit] at hinit
    | some root =>
        simp only [queueInitEx, queueInit, queueSetMaxAtTop, Prod.mk.injEq, true_and] at hinit
        rw [← hinit]
        exact ⟨Nat.zero_le _, hmax, hextent, rfl⟩
  induction hrun with
  | refl => exact hstart
  | tail _ hstep ih => exact ih.step hstep.left hstep.right

/-!
## Extending
-/

/-- The element was added to these contents: the queue is in heap order, and the
memory requested for `root` covers the indexes 0 to `max_elements`. -/
structure Inserted (element : Ptr) (contents : Multiset Ptr) (queue : MyQueue ctx) :
    Prop where
  contents_eq : queue.contents = element ::ₘ contents
  order : queue.InHeapOrder
  room : queue.elements <= queue.maxElements
  covers : (queue.maxElements + 1) * sizeofPtr <= queue.rootBytes

/-- `queue_insert_safe` returns, and either fails and leaves the queue and its block as
they are or adds the element. -/
def InsertsSafely (queue : MyQueue ctx) (element : Ptr) (block : Option (Nat -> Ptr)) :
    Prop :=
  exists ret queue', queueInsertSafe queue element block = some (ret, queue') ∧
    ((ret = 1 ∨ ret = 2) ∧ queue'.root = queue.root ∧ queue'.rootBytes = queue.rootBytes ∧
        queue'.elements = queue.elements ∧ queue'.maxElements = queue.maxElements ∨
      ret = 0 ∧ Inserted element queue.contents queue')

/-- The sums the call relies on fit an `unsigned int`. A reallocation that fails needs
none of them, as long as it is for some bytes. -/
def SumsFit (queue : MyQueue ctx) (block : Option (Nat -> Ptr)) : Prop :=
  if queue.elements = queue.maxElements then
    queue.autoExtent = 0 ∨
      block = none ∧ uint (queue.maxElements + queue.autoExtent + 1) ≠ 0 ∨
      queue.maxElements + queue.autoExtent + 1 < 2 ^ 32
  else
    queue.maxElements + 1 < 2 ^ 32

theorem MyQueue.Bounded.insert_spec (h : queue.Bounded) (hvalid : queue.ValidCompare)
    (hheap : queue.InHeapOrder) (element : Ptr) (hroom : queue.elements < queue.maxElements)
    (hfits : queue.maxElements + 1 < 2 ^ 32) :
    exists queue', queueInsert queue element = some queue' ∧
      Inserted element queue.contents queue' := by
  rcases queueInsert_spec hvalid hheap element hroom with ⟨root, hinsert, horder, hbag⟩
  refine ⟨_, hinsert, hbag, horder, hroom, ?_⟩
  show (queue.maxElements + 1) * sizeofPtr <= queue.rootBytes
  rw [h.bytes]
  exact le_rootRequest hfits (Nat.le_refl _)

/-- Only a request that did not wrap covers all indexes. -/
theorem MyQueue.Bounded.fits_of_inserted (h : queue.Bounded) {element : Ptr}
    {contents : Multiset Ptr} (hinsert : queueInsert queue element = some queue')
    (hinserted : Inserted element contents queue') :
    queue.elements < queue.maxElements ∧ queue.maxElements + 1 < 2 ^ 32 := by
  rcases queueInsert_changes hinsert with ⟨hroom, root, rfl⟩
  have hwidth := h.width
  have hcovers : (queue.maxElements + 1) * sizeofPtr <= queue.rootBytes := hinserted.covers
  rw [h.bytes, rootRequest] at hcovers
  have hslots := Nat.le_of_mul_le_mul_right hcovers (by decide : 0 < sizeofPtr)
  unfold uint at hslots
  omega

def MyQueue.extended (queue : MyQueue ctx) (fresh : Nat -> Ptr) : MyQueue ctx :=
  let maxElements := uint (queue.maxElements + queue.autoExtent)
  { queue with
    elements := min queue.elements maxElements
    maxElements := maxElements
    root := reallocRoot queue.root queue.rootBytes (rootRequest maxElements) fresh
    rootBytes := rootRequest maxElements }

def MyQueue.refused (queue : MyQueue ctx) : MyQueue ctx :=
  if uint (queue.maxElements + queue.autoExtent + 1) = 0 then queue.rootFreed else queue

theorem rootRequest_uint_eq_zero_iff {n : Nat} :
    rootRequest (uint n) = 0 <-> uint (n + 1) = 0 := by
  unfold rootRequest sizeofPtr uint
  omega

theorem MyQueue.Bounded.resize_eq (h : queue.Bounded) (hextent : queue.autoExtent ≠ 0)
    (block : Option (Nat -> Ptr)) :
    queueResize queue (uint (queue.maxElements + queue.autoExtent)) block =
      block.elim (1, queue.refused) fun fresh => (0, queue.extended fresh) := by
  have hwidth := h.width
  have hbound := h.extent
  have hne : queue.maxElements ≠ uint (queue.maxElements + queue.autoExtent) := by
    unfold uint
    omega
  unfold queueResize
  rw [if_neg hne]
  cases block with
  | none =>
      simp only [rootRequest_uint_eq_zero_iff]
      rfl
  | some fresh => rfl

theorem MyQueue.Bounded.extended_keeps (h : queue.Bounded) (hheap : queue.InHeapOrder)
    (fresh : Nat -> Ptr) (hfits : queue.maxElements + queue.autoExtent + 1 < 2 ^ 32) :
    (queue.extended fresh).contents = queue.contents ∧
      (queue.extended fresh).InHeapOrder ∧
      (queue.extended fresh).elements = queue.elements ∧
      (queue.extended fresh).maxElements = queue.maxElements + queue.autoExtent := by
  have hroom := h.room
  have hsum : uint (queue.maxElements + queue.autoExtent) =
      queue.maxElements + queue.autoExtent := uint_of_lt (by omega)
  have hmin : min queue.elements (queue.maxElements + queue.autoExtent) =
      queue.elements := by omega
  have hkept := queueResize_contents hroom (by omega) h.bytes hfits fresh
  unfold MyQueue.extended MyQueue.contents MyQueue.InHeapOrder
  rw [hmin] at hkept
  simp only [hsum, hmin]
  exact ⟨(bag_congr hkept).symm, hheap.congr hkept, trivial, trivial⟩

theorem MyQueue.Bounded.insert_extended (h : queue.Bounded) (hvalid : queue.ValidCompare)
    (hheap : queue.InHeapOrder) (element : Ptr) (hfull : queue.elements = queue.maxElements)
    (hextent : queue.autoExtent ≠ 0) (fresh : Nat -> Ptr)
    (hfits : queue.maxElements + queue.autoExtent + 1 < 2 ^ 32) :
    exists queue', queueInsert (queue.extended fresh) element = some queue' ∧
      Inserted element queue.contents queue' := by
  rcases h.extended_keeps hheap fresh hfits with ⟨hcontents, horder, helements, hmax⟩
  have hbounded : (queue.extended fresh).Bounded := ⟨by omega, by omega, h.extent, rfl⟩
  have hcompare : (queue.extended fresh).ValidCompare :=
    ⟨hvalid.preorder, hvalid.notMin, hvalid.sign⟩
  rcases hbounded.insert_spec hcompare horder element (by omega) (by omega) with
    ⟨last, hinsert, hinserted⟩
  rw [hcontents] at hinserted
  exact ⟨last, hinsert, hinserted⟩

theorem MyQueue.Bounded.insertSafe_full (h : queue.Bounded)
    (hfull : queue.elements = queue.maxElements) (hextent : queue.autoExtent ≠ 0)
    (element : Ptr) (block : Option (Nat -> Ptr)) :
    queueInsertSafe queue element block =
      block.elim (some (1, queue.refused)) fun fresh =>
        (queueInsert (queue.extended fresh) element).map fun q => (0, q) := by
  unfold queueInsertSafe
  rw [if_pos hfull, if_neg hextent, h.resize_eq hextent]
  cases block with
  | none => rfl
  | some fresh => rfl

theorem SumsFit.refused_eq (h : SumsFit queue none)
    (hfull : queue.elements = queue.maxElements) (hextent : queue.autoExtent ≠ 0) :
    queue.refused = queue := by
  rw [SumsFit, if_pos hfull] at h
  refine if_neg ?_
  rcases h with hzero | ⟨_, hbytes⟩ | hsum
  · exact absurd hzero hextent
  · exact hbytes
  · rw [uint_of_lt hsum]
    exact Nat.succ_ne_zero _

theorem SumsFit.sum_lt {fresh : Nat -> Ptr} (h : SumsFit queue (some fresh))
    (hfull : queue.elements = queue.maxElements) (hextent : queue.autoExtent ≠ 0) :
    queue.maxElements + queue.autoExtent + 1 < 2 ^ 32 := by
  rw [SumsFit, if_pos hfull] at h
  rcases h with hzero | ⟨hnone, _⟩ | hsum
  · exact absurd hzero hextent
  · cases hnone
  · exact hsum

theorem MyQueue.Bounded.insertsSafely (h : queue.Bounded) (hvalid : queue.ValidCompare)
    (hheap : queue.InHeapOrder) (element : Ptr) {block : Option (Nat -> Ptr)}
    (hfits : SumsFit queue block) : InsertsSafely queue element block := by
  have hroom := h.room
  by_cases hfull : queue.elements = queue.maxElements
  · by_cases hextent : queue.autoExtent = 0
    · refine ⟨2, queue, ?_, Or.inl ⟨Or.inr rfl, rfl, rfl, rfl, rfl⟩⟩
      unfold queueInsertSafe
      rw [if_pos hfull, if_pos hextent]
    · have hcall := h.insertSafe_full hfull hextent element block
      cases block with
      | none =>
          rw [Option.elim_none, hfits.refused_eq hfull hextent] at hcall
          exact ⟨1, queue, hcall, Or.inl ⟨Or.inl rfl, rfl, rfl, rfl, rfl⟩⟩
      | some fresh =>
          have hsum := hfits.sum_lt hfull hextent
          rcases h.insert_extended hvalid hheap element hfull hextent fresh hsum with
            ⟨last, hinsert, hinserted⟩
          rw [Option.elim_some, hinsert] at hcall
          exact ⟨0, last, hcall, Or.inr ⟨rfl, hinserted⟩⟩
  · rw [SumsFit, if_neg hfull] at hfits
    rcases h.insert_spec hvalid hheap element (by omega) hfits with
      ⟨last, hinsert, hinserted⟩
    refine ⟨0, last, ?_, Or.inr ⟨rfl, hinserted⟩⟩
    unfold queueInsertSafe
    rw [if_neg hfull, hinsert]
    rfl

/-- The block is kept only where the request was for some bytes: it is larger than any
block that an extension wraps to no bytes from. -/
theorem MyQueue.Bounded.bytes_ne_zero (h : queue.Bounded) (hextent : queue.autoExtent ≠ 0)
    (hbytes : queue.refused.rootBytes = queue.rootBytes) :
    uint (queue.maxElements + queue.autoExtent + 1) ≠ 0 := by
  intro hzero
  have hwidth := h.width
  have hbound := h.extent
  rw [MyQueue.refused, if_pos hzero, h.bytes] at hbytes
  have hnone : 0 = rootRequest queue.maxElements := hbytes
  unfold rootRequest sizeofPtr uint at hnone
  unfold uint at hzero
  omega

/-- An extended queue that has room for one more was not cut off. -/
theorem MyQueue.Bounded.fits_of_extended (h : queue.Bounded)
    (hfull : queue.elements = queue.maxElements) {element : Ptr} {fresh : Nat -> Ptr}
    {contents : Multiset Ptr}
    (hinsert : queueInsert (queue.extended fresh) element = some queue')
    (hinserted : Inserted element contents queue') :
    queue.maxElements + queue.autoExtent + 1 < 2 ^ 32 := by
  have hwidth := h.width
  have hextent := h.extent
  have hbounded : (queue.extended fresh).Bounded :=
    ⟨Nat.min_le_right .., Nat.mod_lt _ (by decide), h.extent, rfl⟩
  rcases hbounded.fits_of_inserted hinsert hinserted with ⟨hmore, hslots⟩
  have hless : min queue.elements (uint (queue.maxElements + queue.autoExtent)) <
      uint (queue.maxElements + queue.autoExtent) := hmore
  have hmax := (min_lt_iff.mp hless).resolve_right (Nat.lt_irrefl _)
  have hlast : uint (queue.maxElements + queue.autoExtent) + 1 < 2 ^ 32 := hslots
  unfold uint at hmax hlast
  omega

theorem MyQueue.Bounded.sumsFit (h : queue.Bounded) {element : Ptr}
    {block : Option (Nat -> Ptr)} (hsafe : InsertsSafely queue element block) :
    SumsFit queue block := by
  rcases hsafe with ⟨ret, last, hcall, houtcome⟩
  have hinserted : ret = 0 -> Inserted element queue.contents last := by
    intro hzero
    rcases houtcome with ⟨hret, _⟩ | ⟨_, hinserted⟩
    · omega
    · exact hinserted
  unfold SumsFit
  split
  · rename_i hfull
    by_cases hextent : queue.autoExtent = 0
    · exact Or.inl hextent
    · rw [h.insertSafe_full hfull hextent] at hcall
      cases block with
      | none =>
          rw [Option.elim_none, Option.some.injEq, Prod.mk.injEq] at hcall
          rcases hcall with ⟨rfl, rfl⟩
          rcases houtcome with ⟨_, _, hbytes, _⟩ | ⟨hone, _⟩
          · exact Or.inr (Or.inl ⟨rfl, h.bytes_ne_zero hextent hbytes⟩)
          · cases hone
      | some fresh =>
          rcases Option.map_eq_some_iff.mp hcall with ⟨q, hinsert, hpair⟩
          cases hpair
          exact Or.inr (Or.inr (h.fits_of_extended hfull hinsert (hinserted rfl)))
  · rename_i hfull
    unfold queueInsertSafe at hcall
    rw [if_neg hfull] at hcall
    rcases Option.map_eq_some_iff.mp hcall with ⟨q, hinsert, hpair⟩
    cases hpair
    exact (h.fits_of_inserted hinsert (hinserted rfl)).right

/-- On a queue in heap order that was set up by `queue_init_ex`, `queue_insert_safe`
never loses elements if and only if its sums fit an `unsigned int`. -/
theorem queueInsertSafe_safe_iff (h : SetUp queue) (hvalid : queue.ValidCompare)
    (hheap : queue.InHeapOrder) (element : Ptr) (block : Option (Nat -> Ptr)) :
    InsertsSafely queue element block <-> SumsFit queue block := by
  constructor
  · intro hsafe
    exact h.bounded.sumsFit hsafe
  · intro hfits
    exact h.bounded.insertsSafely hvalid hheap element hfits

section Examples

def emptySlots (maxElements autoExtent : Nat) : MyQueue Unit :=
  { tenSlots with
    rootBytes := rootRequest maxElements
    maxElements := maxElements
    autoExtent := autoExtent }

theorem emptySlots_setUp {maxElements autoExtent : Nat} (hmax : maxElements < 2 ^ 32)
    (hextent : autoExtent < 2 ^ 32) : SetUp (emptySlots maxElements autoExtent) :=
  ⟨tenSlots, emptySlots maxElements autoExtent, maxElements, 0, false, byAddress, (),
    autoExtent, some fun _ => 0, hmax, hextent, rfl, Relation.ReflTransGen.refl⟩

theorem emptySlots_inHeapOrder (maxElements autoExtent : Nat) :
    (emptySlots maxElements autoExtent).InHeapOrder := by
  intro i hi hin
  have hzero : i <= 0 := hin
  omega

theorem oneSlot_full {autoExtent : Nat} (hextent : autoExtent < 2 ^ 32) :
    exists queue : MyQueue Unit, SetUp queue ∧ queue.ValidCompare ∧ queue.InHeapOrder ∧
      queue.contents = {7} ∧ queue.elements = 1 ∧ queue.maxElements = 1 ∧
      queue.autoExtent = autoExtent := by
  have hvalid : (emptySlots 1 autoExtent).ValidCompare :=
    byAddress_validCompare rfl rfl (Or.inl rfl)
  rcases queueInsert_spec hvalid (emptySlots_inHeapOrder 1 autoExtent) 7 (by decide : 0 < 1) with
    ⟨root, hinsert, horder, hbag⟩
  rcases emptySlots_setUp (by decide : 1 < 2 ^ 32) hextent with
    ⟨uninit, start, maxElements, offsetToKey, maxAtTop, compare, firstCmpArg, extent, block,
      hmax, hextent', hinit, hrun⟩
  refine ⟨_, ⟨uninit, start, maxElements, offsetToKey, maxAtTop, compare, firstCmpArg, extent,
    block, hmax, hextent', hinit, hrun.tail ⟨ExtendStep.insert 7 hinsert, rfl⟩⟩,
    ValidCompare.withRoot hvalid root 1, horder, hbag, rfl, rfl, rfl⟩

theorem queueInsertSafe_safe_iff_oneSlot : exists queue : MyQueue Unit,
    queue.contents = {7} ∧ queue.elements = queue.maxElements ∧
      InsertsSafely queue 9 (some fun _ => 0) := by
  rcases oneSlot_full (by decide : 4 < 2 ^ 32) with
    ⟨queue, hsetUp, hvalid, horder, hcontents, helements, hmax, hextent⟩
  have hfull : queue.elements = queue.maxElements := helements.trans hmax.symm
  refine ⟨queue, hcontents, hfull,
    (queueInsertSafe_safe_iff hsetUp hvalid horder 9 (some fun _ => 0)).mpr ?_⟩
  rw [SumsFit, if_pos hfull, hmax, hextent]
  exact Or.inr (Or.inr (by decide))

/-- With the largest extent a full queue of one element is cut off to none, and the
assertion of `queue_insert` fails. With the extent below it the request is for no
bytes, and a `NULL` for it leaves nothing of the queue. -/
theorem queueInsertSafe_not_safe :
    (exists queue : MyQueue Unit, SetUp queue ∧ queue.ValidCompare ∧ queue.InHeapOrder ∧
      queue.contents = {7} ∧ ¬ InsertsSafely queue 9 (some fun _ => 0)) ∧
    exists queue : MyQueue Unit, SetUp queue ∧ queue.ValidCompare ∧ queue.InHeapOrder ∧
      queue.contents = {7} ∧ ¬ InsertsSafely queue 9 none := by
  constructor
  · rcases oneSlot_full (by decide : 2 ^ 32 - 1 < 2 ^ 32) with
      ⟨queue, hsetUp, hvalid, horder, hcontents, helements, hmax, hextent⟩
    refine ⟨queue, hsetUp, hvalid, horder, hcontents, fun hsafe => ?_⟩
    have hfits := hsetUp.bounded.sumsFit hsafe
    rw [SumsFit, if_pos (helements.trans hmax.symm), hmax, hextent] at hfits
    rcases hfits with hzero | ⟨hnone, _⟩ | hsum
    · exact absurd hzero (by decide)
    · cases hnone
    · exact absurd hsum (by decide)
  · rcases oneSlot_full (by decide : 2 ^ 32 - 2 < 2 ^ 32) with
      ⟨queue, hsetUp, hvalid, horder, hcontents, helements, hmax, hextent⟩
    refine ⟨queue, hsetUp, hvalid, horder, hcontents, fun hsafe => ?_⟩
    have hfits := hsetUp.bounded.sumsFit hsafe
    rw [SumsFit, if_pos (helements.trans hmax.symm), hmax, hextent] at hfits
    rcases hfits with hzero | ⟨_, hbytes⟩ | hsum
    · exact absurd hzero (by decide)
    · exact absurd rfl hbytes
    · exact absurd hsum (by decide)

end Examples

end Queue
end MyLibs
