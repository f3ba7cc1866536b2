import MyLibs.Queue.AnyCompare
import MyLibs.Queue.Extending

/-!
# The queue while its order changes

The order of a queue is not fixed: `queue_set_cmp_arg` and `queue_set_max_at_top` change
it, and so does the caller who writes to the keys. Until `queue_fix` runs, nothing may
come out in order, but the elements are all there.
-/

namespace MyLibs
namespace Queue

open Foundation
open Foundation.BinaryHeap

variable {ctx : Type _}

def queueSetCmpArg (queue : MyQueue ctx) (setArg : ctx) : MyQueue ctx :=
  { queue with firstCmpArg := setArg }

def queueRemoveAll (queue : MyQueue ctx) : MyQueue ctx :=
  { queue with elements := 0 }

/-- `queue_reinit`, which does not look at what `queue_resize` returns. -/
def queueReinit (queue : MyQueue ctx) (maxElements offsetToKey : Nat) (maxAtTop : Bool)
    (compare : ctx -> Ptr -> Ptr -> Int32) (firstCmpArg : ctx)
    (block : Option (Nat -> Ptr)) : Nat × MyQueue ctx :=
  let queue := queueSetMaxAtTop
    { queue with
      elements := 0
      compare := compare
      firstCmpArg := firstCmpArg
      offsetToKey := offsetToKey } maxAtTop
  (0, (queueResize queue maxElements block).2)

/-!
## Calls
-/

inductive Call (ctx : Type _) where
  | insert (element : Ptr)
  | insertSafe (element : Ptr) (block : Option (Nat -> Ptr))
  | remove (idx : Nat)
  /-- The caller writes over the top and calls `queue_replaced`. -/
  | replaceTop (element : Ptr)
  | fix
  | resize (maxElements : Nat) (block : Option (Nat -> Ptr))
  | removeAll
  | reinit (maxElements offsetToKey : Nat) (maxAtTop : Bool)
      (compare : ctx -> Ptr -> Ptr -> Int32) (firstCmpArg : ctx)
      (block : Option (Nat -> Ptr))
  | setCmpArg (setArg : ctx)
  | setMaxAtTop (setArg : Bool)
  /-- `compare` finds other keys in the elements than before. -/
  | writeKeys (compare : ctx -> Ptr -> Ptr -> Int32)

inductive Reply where
  | nothing
  | code (ret : Nat)
  | taken (element : Ptr)
deriving DecidableEq

@[simp] def Reply.handedOut : Reply -> Multiset Ptr
  | .taken element => {element}
  | _ => 0

namespace Call

variable (queue : MyQueue ctx)

def apply : Call ctx -> Option (Reply × MyQueue ctx)
  | .insert element => (queueInsert queue element).map fun q => (.nothing, q)
  | .insertSafe element block =>
      (queueInsertSafe queue element block).map fun r => (.code r.1, r.2)
  | .remove idx => (queueRemove queue idx).map fun r => (.taken r.1, r.2)
  | .replaceTop element =>
      (queueReplaced { queue with root := Function.update queue.root 1 element }).map
        fun q => (.taken (queueTop queue), q)
  | .fix => (queueFix queue).map fun q => (.nothing, q)
  | .resize maxElements block =>
      let resized := queueResize queue maxElements block
      some (.code resized.1, resized.2)
  | .removeAll => some (.nothing, queueRemoveAll queue)
  | .reinit maxElements offsetToKey maxAtTop compare firstCmpArg block =>
      let renewed := queueReinit queue maxElements offsetToKey maxAtTop compare
        firstCmpArg block
      some (.code renewed.1, renewed.2)
  | .setCmpArg setArg => some (.nothing, queueSetCmpArg queue setArg)
  | .setMaxAtTop setArg => some (.nothing, queueSetMaxAtTop queue setArg)
  | .writeKeys compare => some (.nothing, { queue with compare := compare })

/-- What the caller has to see to: room, indexes in the queue, sums that fit, and for an
insertion that `compare` does not put the element before itself. -/
def Allowed : Call ctx -> Prop
  | .insert element =>
      queue.elements < queue.maxElements ∧ ¬ queue.before element element
  | .insertSafe element block => SumsFit queue block ∧ ¬ queue.before element element
  | .remove idx => idx < queue.elements
  | .replaceTop _ => 0 < queue.elements
  | .resize maxElements _ => LeavesSentinelSlot maxElements
  | .reinit maxElements _ _ _ _ _ => LeavesSentinelSlot maxElements
  | _ => True

@[simp] def accepted (reply : Reply) : Call ctx -> Multiset Ptr
  | .insert element => {element}
  | .insertSafe element _ => if reply = .code 0 then {element} else 0
  | .replaceTop element => {element}
  | _ => 0

@[simp] def dropped (queue' : MyQueue ctx) : Call ctx -> Multiset Ptr
  | .resize _ _ | .removeAll | .reinit _ _ _ _ _ _ =>
      bag (fun i => queue.root (queue'.elements + i)) (queue.elements - queue'.elements)
  | _ => 0

end Call

inductive Life (start : MyQueue ctx) :
    Multiset Ptr -> Multiset Ptr -> Multiset Ptr -> MyQueue ctx -> Prop where
  | start : Life start 0 0 0 start
  | call {accepted handedOut dropped : Multiset Ptr} {queue queue' : MyQueue ctx}
      {reply : Reply} (call : Call ctx) :
      Life start accepted handedOut dropped queue -> call.Allowed queue ->
      call.apply queue = some (reply, queue') ->
      Life start (call.accepted reply + accepted) (reply.handedOut + handedOut)
        (call.dropped queue queue' + dropped) queue'

/-!
## What a call keeps
-/

structure MyQueue.Sized (queue : MyQueue ctx) : Prop where
  bounded : queue.Bounded
  slot : LeavesSentinelSlot queue.maxElements

def Call.Accounts (call : Call ctx) (queue : MyQueue ctx) : Prop :=
  exists reply queue', call.apply queue = some (reply, queue') ∧ queue'.Sized ∧
    call.accepted reply + queue.contents =
      queue'.contents + reply.handedOut + call.dropped queue queue'

structure MyQueue.Ready (queue ready : MyQueue ctx) : Prop where
  sized : ready.Sized
  room : ready.elements < ready.maxElements
  elements : ready.elements = queue.elements
  root : forall i, 1 <= i -> i <= queue.elements -> queue.root i = ready.root i
  before : ready.before = queue.before
  compare : queue.ValidCompare -> ready.ValidCompare

variable {queue queue' ready : MyQueue ctx}

@[simp] theorem contents_withRoot (root : Nat -> Ptr) (elements : Nat) :
    { queue with root := root, elements := elements }.contents = bag root elements := rfl

theorem MyQueue.Ready.contents (h : queue.Ready ready) : ready.contents = queue.contents := by
  unfold MyQueue.contents
  rw [h.elements]
  exact (bag_congr h.root).symm

theorem MyQueue.Ready.inHeapOrder (h : queue.Ready ready) (hheap : queue.InHeapOrder) :
    ready.InHeapOrder := by
  unfold MyQueue.InHeapOrder
  rw [h.before, h.elements]
  exact hheap.congr h.root

namespace MyQueue.Sized

theorem withRoot (h : queue.Sized) (root : Nat -> Ptr) {elements : Nat}
    (hroom : elements <= queue.maxElements) :
    { queue with root := root, elements := elements }.Sized :=
  ⟨h.bounded.withRoot root hroom, h.slot⟩

theorem insert (h : queue.Sized) {element : Ptr} (hself : ¬ queue.before element element)
    (hroom : queue.elements < queue.maxElements) :
    exists queue', queueInsert queue element = some queue' ∧ queue'.Sized ∧
      queue'.contents = element ::ₘ queue.contents := by
  rcases queueInsert_keeps hself hroom with ⟨root, hinsert, hbag⟩
  exact ⟨_, hinsert, h.withRoot root hroom, hbag⟩

theorem extended_ready (h : queue.Sized) (hfull : queue.elements = queue.maxElements)
    (hextent : queue.autoExtent ≠ 0) (fresh : Nat -> Ptr)
    (hsum : queue.maxElements + queue.autoExtent + 1 < 2 ^ 32) :
    queue.Ready (queue.extended fresh) := by
  have hmax : (queue.extended fresh).maxElements = queue.maxElements + queue.autoExtent :=
    uint_of_lt (by omega)
  have helements : (queue.extended fresh).elements = queue.elements := by
    show min queue.elements (queue.extended fresh).maxElements = queue.elements
    omega
  have hslot : LeavesSentinelSlot (queue.extended fresh).maxElements := by
    rw [hmax]
    exact hsum
  refine ⟨⟨⟨by omega, by omega, h.bounded.extent, rfl⟩, hslot⟩, by omega, helements, ?_, rfl,
    fun hvalid => ⟨hvalid.preorder, hvalid.notMin, hvalid.sign⟩⟩
  intro i hi hin
  exact queueResize_contents h.bounded.room h.slot h.bounded.bytes hslot fresh i hi (by omega)

theorem insertSafe_cases (h : queue.Sized) (element : Ptr) {block : Option (Nat -> Ptr)}
    (hfits : SumsFit queue block) :
    (exists ret, ret ≠ 0 ∧ queueInsertSafe queue element block = some (ret, queue)) ∨
      exists ready, queue.Ready ready ∧ queueInsertSafe queue element block =
        (queueInsert ready element).map fun q => (0, q) := by
  have hroom := h.bounded.room
  by_cases hfull : queue.elements = queue.maxElements
  · by_cases hextent : queue.autoExtent = 0
    · refine Or.inl ⟨2, by decide, ?_⟩
      unfold queueInsertSafe
      rw [if_pos hfull, if_pos hextent]
    · have hcall := h.bounded.insertSafe_full hfull hextent element block
      cases block with
      | none =>
          rw [Option.elim_none, hfits.refused_eq hfull hextent] at hcall
          exact Or.inl ⟨1, by decide, hcall⟩
      | some fresh =>
          have hready := h.extended_ready hfull hextent fresh (hfits.sum_lt hfull hextent)
          exact Or.inr ⟨_, hready, hcall⟩
  · refine Or.inr ⟨queue, ⟨h, by omega, rfl, fun _ _ _ => rfl, rfl, id⟩, ?_⟩
    unfold queueInsertSafe
    rw [if_neg hfull]

theorem resize (h : queue.Sized) {maxElements : Nat} (hslot : LeavesSentinelSlot maxElements)
    (block : Option (Nat -> Ptr)) :
    (queueResize queue maxElements block).2.Sized ∧
      (queueResize queue maxElements block).2.elements <= queue.elements ∧
      forall i, 1 <= i -> i <= (queueResize queue maxElements block).2.elements ->
        queue.root i = (queueResize queue maxElements block).2.root i := by
  have hwidth : maxElements < 2 ^ 32 := Nat.lt_of_succ_lt hslot
  by_cases hsame : queue.maxElements = maxElements
  · unfold queueResize
    simp only [if_pos hsame]
    exact ⟨h, Nat.le_refl _, fun _ _ _ => trivial⟩
  · cases block with
    | none =>
        rw [queueResize_failed hsame (rootRequest_ne_zero hslot)]
        exact ⟨h, Nat.le_refl _, fun i _ _ => rfl⟩
    | some fresh =>
        unfold queueResize
        simp only [if_neg hsame]
        refine ⟨⟨⟨Nat.min_le_right .., hwidth, h.bounded.extent, rfl⟩, hslot⟩,
          Nat.min_le_left .., ?_⟩
        exact queueResize_contents h.bounded.room h.slot h.bounded.bytes hslot fresh

theorem withOrder (h : queue.Sized) (compare : ctx -> Ptr -> Ptr -> Int32)
    (firstCmpArg : ctx) (offsetToKey : Nat) (maxAtTop : Int32) :
    { queue with
      compare := compare
      firstCmpArg := firstCmpArg
      offsetToKey := offsetToKey
      maxAtTop := maxAtTop }.Sized :=
  ⟨⟨h.bounded.room, h.bounded.width, h.bounded.extent, h.bounded.bytes⟩, h.slot⟩

end MyQueue.Sized

theorem contents_eq_add_cutOff (hle : queue'.elements <= queue.elements)
    (hroot : forall i, 1 <= i -> i <= queue'.elements -> queue.root i = queue'.root i) :
    queue.contents = queue'.contents + bag (fun i => queue.root (queue'.elements + i))
      (queue.elements - queue'.elements) := by
  have hsplit := bag_add queue.root queue'.elements (queue.elements - queue'.elements)
  rw [Nat.add_sub_cancel' hle] at hsplit
  unfold MyQueue.contents
  rw [hsplit, bag_congr hroot]

theorem MyQueue.Sized.accounts (h : queue.Sized) {call : Call ctx}
    (hallowed : call.Allowed queue) : call.Accounts queue := by
  have hroom := h.bounded.room
  cases call with
  | insert element =>
      rcases hallowed with ⟨hspace, hself⟩
      rcases h.insert hself hspace with ⟨queue', hinsert, hsized, hbag⟩
      refine ⟨.nothing, queue', by simp only [Call.apply, hinsert, Option.map_some], hsized, ?_⟩
      simp [hbag]
  | insertSafe element block =>
      rcases hallowed with ⟨hfits, hself⟩
      rcases h.insertSafe_cases element hfits with ⟨ret, hret, hcall⟩ | ⟨ready, hready, hcall⟩
      · refine ⟨.code ret, queue, by simp only [Call.apply, hcall, Option.map_some], h, ?_⟩
        simp [hret]
      · rw [← hready.before] at hself
        rcases hready.sized.insert hself hready.room with ⟨queue', hinsert, hsized, hbag⟩
        rw [hinsert] at hcall
        refine ⟨.code 0, queue', by simp only [Call.apply, hcall, Option.map_some], hsized, ?_⟩
        simp [hbag, hready.contents]
  | remove idx =>
      rcases queueRemove_keeps hallowed hroom h.bounded.width with ⟨root, hremove, hbag⟩
      refine ⟨.taken (queue.root (idx + 1)),
        { queue with root := root, elements := queue.elements - 1 },
        by simp only [Call.apply, hremove, Option.map_some],
        h.withRoot root (Nat.le_trans (Nat.sub_le ..) hroom), ?_⟩
      have hcount : queue.contents =
          bag root (queue.elements - 1) + {queue.root (idx + 1)} := by
        rw [hbag, Multiset.add_comm, Multiset.singleton_add]
      simpa using hcount
  | replaceTop element =>
      rcases queueReplaced_keeps element hallowed with ⟨root, hreplace, hbag⟩
      refine ⟨.taken (queueTop queue), _,
        by simp only [Call.apply, hreplace, Option.map_some], h.withRoot root hroom, ?_⟩
      have hcount : {element} + queue.contents = bag root queue.elements + {queueTop queue} := by
        rw [Multiset.singleton_add, ← hbag, Multiset.add_comm, Multiset.singleton_add]
      simpa using hcount
  | fix =>
      rcases queueFixLoop_keeps queue (queue.elements / 2) with ⟨root, hfix, hbag⟩
      refine ⟨.nothing, _, by simp only [Call.apply, queueFix, hfix, Option.map_some],
        h.withRoot root hroom, ?_⟩
      simpa using hbag.symm
  | resize maxElements block =>
      rcases h.resize hallowed block with ⟨hsized, hle, hroot⟩
      refine ⟨_, _, rfl, hsized, ?_⟩
      rw [contents_eq_add_cutOff hle hroot]
      simp
  | removeAll =>
      refine ⟨.nothing, _, rfl, h.withRoot queue.root (Nat.zero_le _), ?_⟩
      simp [MyQueue.contents, queueRemoveAll]
  | reinit maxElements offsetToKey maxAtTop compare firstCmpArg block =>
      have hemptied := (h.withOrder compare firstCmpArg offsetToKey
        (if maxAtTop then -1 else 1)).withRoot queue.root (Nat.zero_le _)
      rcases hemptied.resize hallowed block with ⟨hsized, hle, hroot⟩
      have hnone : (queueReinit queue maxElements offsetToKey maxAtTop compare firstCmpArg
          block).2.elements = 0 := Nat.le_zero.mp hle
      refine ⟨_, _, rfl, hsized, ?_⟩
      rw [contents_eq_add_cutOff (hnone ▸ Nat.zero_le _) (fun i hi hin => by omega)]
      simp
  | setCmpArg setArg =>
      refine ⟨.nothing, _, rfl, h.withOrder queue.compare setArg queue.offsetToKey
        queue.maxAtTop, ?_⟩
      simp [MyQueue.contents, queueSetCmpArg]
  | setMaxAtTop setArg =>
      refine ⟨.nothing, _, rfl, h.withOrder queue.compare queue.firstCmpArg queue.offsetToKey
        (if setArg then -1 else 1), ?_⟩
      simp [MyQueue.contents, queueSetMaxAtTop]
  | writeKeys compare =>
      refine ⟨.nothing, _, rfl, h.withOrder compare queue.firstCmpArg queue.offsetToKey
        queue.maxAtTop, ?_⟩
      simp [MyQueue.contents]

theorem Life.accounts {start : MyQueue ctx} {accepted handedOut dropped : Multiset Ptr}
    (hstart : start.Sized) (hempty : start.elements = 0)
    (h : Life start accepted handedOut dropped queue) :
    queue.Sized ∧ accepted = queue.contents + handedOut + dropped := by
  induction h with
  | start =>
      refine ⟨hstart, ?_⟩
      rw [MyQueue.contents, hempty, bag_zero]
      rfl
  | call call _ hallowed happly ih =>
      rcases ih with ⟨hsized, hcount⟩
      rcases hsized.accounts hallowed with ⟨reply, queue', happly', hsized', hcount'⟩
      rw [happly] at happly'
      cases happly'
      refine ⟨hsized', Multiset.ext.mpr fun x => ?_⟩
      have hx := congrArg (Multiset.count x) hcount
      have hx' := congrArg (Multiset.count x) hcount'
      simp only [Multiset.count_add] at hx hx' ⊢
      omega

/-!
## Order again
-/

def Call.KeepsOrder : Call ctx -> Prop
  | .remove idx => idx = 0
  | .reinit _ _ _ _ _ _ | .setCmpArg _ | .setMaxAtTop _ | .writeKeys _ => False
  | _ => True

theorem MyQueue.Sized.sound (h : queue.Sized) (hvalid : queue.ValidCompare)
    (hheap : queue.InHeapOrder) : queue.Sound :=
  ⟨hvalid, hheap, h.bounded.room, h.slot, h.bounded.bytes⟩

theorem MyQueue.Sized.fix (h : queue.Sized) (hvalid : queue.ValidCompare) :
    exists fixed, queueFix queue = some fixed ∧ fixed.Sized ∧ fixed.Sound ∧
      fixed.contents = queue.contents := by
  have horder := orderedFrom_last queue.before queue.root queue.elements
  have hfix := queueFixLoop_eq_buildHeap hvalid (Nat.div_le_self ..) horder
  rcases buildHeap_spec (before_strictWeakOrder hvalid) horder (Nat.div_le_self ..) with
    ⟨hheap, hbag, _⟩
  have hsized := h.withRoot (buildHeap queue.before queue.elements (queue.elements / 2)
    queue.root) h.bounded.room
  exact ⟨_, hfix, hsized, hsized.sound (ValidCompare.withRoot hvalid _ queue.elements) hheap,
    hbag⟩

theorem MyQueue.Sound.call (h : queue.Sound) (hsized : queue.Sized) {call : Call ctx}
    {reply : Reply} (hkeeps : call.KeepsOrder) (hallowed : call.Allowed queue)
    (happly : call.apply queue = some (reply, queue')) : queue'.Sound := by
  cases call with
  | insert element =>
      rcases h.insert element hallowed.left with ⟨next, hnext, hsound, _⟩
      rw [Call.apply, hnext] at happly
      cases happly
      exact hsound
  | insertSafe element block =>
      rcases hsized.insertSafe_cases element hallowed.left with
        ⟨ret, _, hcall⟩ | ⟨ready, hready, hcall⟩
      · rw [Call.apply, hcall] at happly
        cases happly
        exact h
      · have hsound := hready.sized.sound (hready.compare h.compare)
          (hready.inHeapOrder h.order)
        rcases hsound.insert element hready.room with ⟨next, hnext, hsound', _⟩
        rw [Call.apply, hcall, hnext] at happly
        cases happly
        exact hsound'
  | remove idx =>
      cases hkeeps
      rcases h.remove hallowed with ⟨next, hnext, hsound, _⟩
      rw [Call.apply, hnext] at happly
      cases happly
      exact hsound
  | replaceTop element =>
      rcases h.replaceTop element with ⟨next, hnext, hsound, _⟩
      rw [Call.apply, hnext] at happly
      cases happly
      exact hsound
  | fix =>
      rcases hsized.fix h.compare with ⟨next, hnext, _, hsound, _⟩
      rw [Call.apply, hnext] at happly
      cases happly
      exact hsound
  | resize maxElements block =>
      cases happly
      exact (h.resize hallowed block).left
  | removeAll =>
      cases happly
      refine (hsized.withRoot queue.root (Nat.zero_le _)).sound
        (ValidCompare.withRoot h.compare queue.root 0) ?_
      exact HeapOrdered.mono h.order (Nat.zero_le _)
  | reinit | setCmpArg | setMaxAtTop | writeKeys => exact hkeeps.elim

theorem queueInitEx_sized {uninit start : MyQueue ctx} {maxElements offsetToKey : Nat}
    {maxAtTop : Bool} {compare : ctx -> Ptr -> Ptr -> Int32} {firstCmpArg : ctx}
    {autoExtent : Nat} {block : Option (Nat -> Ptr)}
    (hinit : queueInitEx uninit maxElements offsetToKey maxAtTop compare firstCmpArg autoExtent
      block = (0, start))
    (hslot : LeavesSentinelSlot maxElements) (hextent : autoExtent < 2 ^ 32) :
    start.Sized ∧ start.elements = 0 := by
  cases block with
  | none => simp [queueInitEx, queueInit] at hinit
  | some root =>
      simp only [queueInitEx, queueInit, queueSetMaxAtTop, Prod.mk.injEq, true_and] at hinit
      rw [← hinit]
      exact ⟨⟨⟨Nat.zero_le _, Nat.lt_of_succ_lt hslot, hextent, rfl⟩, hslot⟩, rfl⟩

end Queue
end MyLibs
