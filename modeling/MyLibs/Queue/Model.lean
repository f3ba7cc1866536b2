import Mathlib.Logic.Function.Basic
import MyLibs.Platform

/-!
# The priority queue of `my_queue.c`

The queue keeps pointers in `root[1]` to `root[elements]`; `root[0]` is used as
a sentinel during insertion. The block `root` points to is a total function
here, together with the number of bytes that was asked for it, so that what a
reallocation keeps of it can be stated.
-/

namespace MyLibs
namespace Queue

structure MyQueue (ctx : Type _) where
  root : Nat -> Ptr
  /-- Bytes last requested for the block `root` points to. -/
  rootBytes : Nat
  firstCmpArg : ctx
  elements : Nat
  maxElements : Nat
  offsetToKey : Nat
  maxAtTop : Int32
  compare : ctx -> Ptr -> Ptr -> Int32
  autoExtent : Nat

variable {ctx : Type _}

/-- The comparison every loop makes: `compare(first_cmp_arg, x + offset_to_key,
y + offset_to_key) * max_at_top`. -/
def MyQueue.compareKeys (queue : MyQueue ctx) (x y : Ptr) : Int32 :=
  queue.compare queue.firstCmpArg (x + queue.offsetToKey)
    (y + queue.offsetToKey) * queue.maxAtTop

def queueSetMaxAtTop (queue : MyQueue ctx) (setArg : Bool) : MyQueue ctx :=
  { queue with maxAtTop := if setArg then -1 else 1 }

def queueTop (queue : MyQueue ctx) : Ptr := queue.root 1

/-!
## Allocation

The allocator's answer is an argument: `none` for `NULL`, or the bytes the new
block happened to hold.
-/

/-- Bytes that `(max_elements+1)*sizeof(void*)` asks for. The sum is computed
in `unsigned int`. -/
def rootRequest (maxElements : Nat) : Nat :=
  uint (maxElements + 1) * sizeofPtr

/-- `my_realloc` keeps the slots that lie wholly in both blocks; the rest of the
new block holds whatever was there. -/
def reallocRoot (old : Nat -> Ptr) (oldBytes newBytes : Nat)
    (fresh : Nat -> Ptr) : Nat -> Ptr :=
  fun i =>
    if (i + 1) * sizeofPtr <= min oldBytes newBytes then old i else fresh i

def queueInit (queue : MyQueue ctx) (maxElements offsetToKey : Nat)
    (maxAtTop : Bool) (compare : ctx -> Ptr -> Ptr -> Int32)
    (firstCmpArg : ctx) (block : Option (Nat -> Ptr)) : Nat × MyQueue ctx :=
  match block with
  | none => (1, { queue with rootBytes := 0 })
  | some root =>
      (0, queueSetMaxAtTop
        { queue with
          root := root
          rootBytes := rootRequest maxElements
          elements := 0
          compare := compare
          firstCmpArg := firstCmpArg
          maxElements := maxElements
          offsetToKey := offsetToKey } maxAtTop)

def queueInitEx (queue : MyQueue ctx) (maxElements offsetToKey : Nat)
    (maxAtTop : Bool) (compare : ctx -> Ptr -> Ptr -> Int32)
    (firstCmpArg : ctx) (autoExtent : Nat) (block : Option (Nat -> Ptr)) :
    Nat × MyQueue ctx :=
  match queueInit queue maxElements offsetToKey maxAtTop compare firstCmpArg
      block with
  | (0, queue) => (0, { queue with autoExtent := autoExtent })
  | (ret, queue) => (ret, queue)

/-- `realloc` has given back the block that `root` still points to: it has no bytes any
more, and its pointers cannot be read. -/
def MyQueue.rootFreed (queue : MyQueue ctx) : MyQueue ctx :=
  { queue with root := fun _ => NULL, rootBytes := 0 }

/-- A request for no bytes frees the block before `NULL` is returned. -/
def queueResize (queue : MyQueue ctx) (maxElements : Nat)
    (block : Option (Nat -> Ptr)) : Nat × MyQueue ctx :=
  if queue.maxElements = maxElements then
    (0, queue)
  else
    match block with
    | none => (1, if rootRequest maxElements = 0 then queue.rootFreed else queue)
    | some fresh =>
        (0, { queue with
          elements := min queue.elements maxElements
          maxElements := maxElements
          root := reallocRoot queue.root queue.rootBytes
            (rootRequest maxElements) fresh
          rootBytes := rootRequest maxElements })

/-!
## Insertion

Loops take a fuel argument and return `none` when it runs out.
-/

/-- The loop of `queue_insert`: `element` climbs from `idx`, each parent it is
before moving down. -/
def queueInsertLoop (queue : MyQueue ctx) (element : Ptr) :
    Nat -> Nat -> (Nat -> Ptr) -> Option (Nat × (Nat -> Ptr))
  | 0, _, _ => none
  | fuel + 1, idx, root =>
      let next := idx / 2
      if queue.compareKeys element (root next) < 0 then
        queueInsertLoop queue element fuel next
          (Function.update root idx (root next))
      else
        some (idx, root)

/-- `queue_insert`; `none` is a failed assertion or a loop without end. -/
def queueInsert (queue : MyQueue ctx) (element : Ptr) : Option (MyQueue ctx) :=
  if queue.elements < queue.maxElements then
    let idx := queue.elements + 1
    match queueInsertLoop queue element (idx + 1) idx
        (Function.update queue.root 0 element) with
    | none => none
    | some (idx, root) =>
        some { queue with
          elements := queue.elements + 1
          root := Function.update root idx element }
  else
    none

def queueInsertSafe (queue : MyQueue ctx) (element : Ptr)
    (block : Option (Nat -> Ptr)) : Option (Nat × MyQueue ctx) :=
  if queue.elements = queue.maxElements then
    if queue.autoExtent = 0 then
      some (2, queue)
    else
      match queueResize queue (uint (queue.maxElements + queue.autoExtent))
          block with
      | (0, queue) => (queueInsert queue element).map (fun q => (0, q))
      | (_, queue) => some (1, queue)
  else
    (queueInsert queue element).map (fun q => (0, q))

/-!
## Removal

`_downheap` sinks to a leaf along the first children without looking at the
element again, then climbs back to where the element belongs.
-/

/-- What the first loop of `_downheap` ends with. -/
inductive Sunk where
  /-- The function returned from inside the loop. -/
  | returned (root : Nat -> Ptr)
  /-- The loop ended with the hole at `idx`. -/
  | leaf (idx : Nat) (root : Nat -> Ptr)

/-- The first loop of `_downheap`. -/
def downheapSink (queue : MyQueue ctx) (element : Ptr) :
    Nat -> Bool -> Nat -> (Nat -> Ptr) -> Option Sunk
  | 0, _, _, _ => none
  | fuel + 1, first, idx, root =>
      if idx <= queue.elements / 2 then
        let nextIndex := idx + idx
        let nextIndex :=
          if nextIndex < queue.elements ∧
              queue.compareKeys (root nextIndex) (root (nextIndex + 1)) > 0 then
            nextIndex + 1
          else
            nextIndex
        if first ∧ queue.compareKeys (root nextIndex) element >= 0 then
          some (.returned (Function.update root idx element))
        else
          downheapSink queue element fuel false nextIndex
            (Function.update root idx (root nextIndex))
      else
        some (.leaf idx root)

/-- The second loop of `_downheap`. -/
def downheapClimb (queue : MyQueue ctx) (element : Ptr) (startIdx : Nat) :
    Nat -> Nat -> (Nat -> Ptr) -> Option (Nat × (Nat -> Ptr))
  | 0, _, _ => none
  | fuel + 1, idx, root =>
      let nextIndex := idx / 2
      if nextIndex > startIdx then
        if queue.compareKeys (root nextIndex) element < 0 then
          some (idx, root)
        else
          downheapClimb queue element startIdx fuel nextIndex
            (Function.update root idx (root nextIndex))
      else
        some (idx, root)

def downheap (queue : MyQueue ctx) (idx : Nat) : Option (MyQueue ctx) :=
  let element := queue.root idx
  match downheapSink queue element (queue.elements + 1) true idx queue.root with
  | none => none
  | some (.returned root) => some { queue with root := root }
  | some (.leaf leaf root) =>
      match downheapClimb queue element idx (leaf + 1) leaf root with
      | none => none
      | some (hole, root) =>
          some { queue with root := Function.update root hole element }

def queueReplaced (queue : MyQueue ctx) : Option (MyQueue ctx) :=
  downheap queue 1

/-- `queue_remove`; `none` is a failed assertion or a loop without end. -/
def queueRemove (queue : MyQueue ctx) (idx : Nat) :
    Option (Ptr × MyQueue ctx) :=
  if idx < queue.maxElements then
    let idx := idx + 1
    let element := queue.root idx
    match downheap
        { queue with
          root := Function.update queue.root idx (queue.root queue.elements)
          elements := uint (queue.elements + (2 ^ 32 - 1)) } idx with
    | none => none
    | some queue => some (element, queue)
  else
    none

/-- The loop of `queue_fix`, from `i` down to 1. -/
def queueFixLoop : Nat -> MyQueue ctx -> Option (MyQueue ctx)
  | 0, queue => some queue
  | i + 1, queue =>
      match downheap queue (i + 1) with
      | none => none
      | some queue => queueFixLoop i queue

def queueFix (queue : MyQueue ctx) : Option (MyQueue ctx) :=
  queueFixLoop (queue.elements / 2) queue

end Queue
end MyLibs
