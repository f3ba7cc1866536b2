import Mathlib.Logic.Function.Basic
import MyLibs.Platform

/-!
# The chained hash table of `my_hash.c`

Entries live in a heap of addresses; the table holds the heads of their chains.
Every function is translated with the heap it reads and writes. A function
returns `none` where the source would touch an address that holds no entry, or
when a loop takes more turns than there are entries. A walk, whose callback may
change the table, is told how many turns it may take.

The header gives the entry two members named `key`; one is read as the key
pointer and the other as the hash value of the key (`keyHash` here), according
to the type the code needs. `pre` and `prev` are one member. In
`my_hash_lookup` the missing second argument of `HASH_INDEX` is the size of the
table, and the `pre` that `my_hash_lookadd` returns is `iter`.
-/

namespace MyLibs
namespace ChainedHash

def HASH_FULL_ITERATE : Nat := 2

def HASH_DEFAULT_SIZE : Nat := 10

def HASH_INDEX (k n : Nat) : Nat := k % n

/-- `my_hash_ops`. The optional callbacks are only there or not: the copies that
the `dup` functions return come with each call. -/
structure MyHashOps where
  hash : Ptr -> Nat
  compare : Ptr -> Ptr -> Int
  keyDup : Bool
  keyFree : Bool
  valueDup : Bool
  valueFree : Bool

/-- `my_hash_iter`, without the pointer back to its table. -/
structure MyHashIter where
  key : Ptr
  value : Ptr
  keyHash : Nat
  next : Ptr
  prev : Ptr
  foreach : Nat
deriving DecidableEq

/-- What `my_calloc` returns for an entry. -/
def MyHashIter.zero : MyHashIter where
  key := NULL
  value := NULL
  keyHash := 0
  next := NULL
  prev := NULL
  foreach := 0

inductive Event where
  | keyDup (key copy : Ptr)
  | keyFree (key : Ptr)
  | valueDup (value copy : Ptr)
  | valueFree (value : Ptr)
  | free (iter : Ptr)
deriving DecidableEq

/-- `my_hash` and the entries it has allocated. -/
structure MyHash where
  num : Nat
  size : Nat
  /-- The array `iter`. -/
  buckets : Nat -> Ptr
  ops : MyHashOps
  heap : Ptr -> Option MyHashIter
  /-- Newest first. -/
  log : List Event

structure Outcome where
  /-- The address `my_calloc` finds for an entry, or `NULL`. -/
  entry : Ptr
  /-- Whether `my_calloc` finds room for a new bucket array. -/
  buckets : Bool
  /-- What `key_dup` returns. -/
  keyCopy : Ptr
  /-- What `value_dup` returns. -/
  valueCopy : Ptr

/-!
## Access to entries
-/

abbrev Heap := Ptr -> Option MyHashIter

def writeIter (heap : Heap) (p : Ptr) (f : MyHashIter -> MyHashIter) : Option Heap :=
  (heap p).map fun iter => Function.update heap p (some (f iter))

/-- `if (p) p->prev = prev;` -/
def writePrev (heap : Heap) (p prev : Ptr) : Option Heap :=
  if p = NULL then some heap else writeIter heap p fun iter => { iter with prev := prev }

/-- `if (p) p->next = next;` -/
def writeNext (heap : Heap) (p next : Ptr) : Option Heap :=
  if p = NULL then some heap else writeIter heap p fun iter => { iter with next := next }

def MyHash.logged (hash : MyHash) (set : Bool) (event : Event) : MyHash :=
  if set then { hash with log := event :: hash.log } else hash

/-!
## Growth
-/

/-- The inner loop of `rehash`: the chain at `pre` goes into the new array
`iter`, each entry in front. -/
def rehashChain (size : Nat) : Nat -> Ptr -> Heap × (Nat -> Ptr) ->
    Option (Heap × (Nat -> Ptr))
  | 0, _, _ => none
  | fuel + 1, pre, (heap, iter) =>
      if pre = NULL then
        some (heap, iter)
      else do
        let entry <- heap pre
        let idx := HASH_INDEX entry.keyHash size
        let heap <- writeIter heap pre fun entry => { entry with next := iter idx }
        let heap <- writePrev heap (iter idx) pre
        let heap <- writeIter heap pre fun entry => { entry with prev := NULL }
        rehashChain size fuel entry.next (heap, Function.update iter idx pre)

/-- The outer loop of `rehash` over some old buckets. -/
def rehashBuckets (hash : MyHash) (size : Nat) : List Nat -> Heap × (Nat -> Ptr) ->
    Option (Heap × (Nat -> Ptr))
  | [], state => some state
  | i :: rest, state => do
      let state <- rehashChain size (hash.num + 1) (hash.buckets i) state
      rehashBuckets hash size rest state

/-- `rehash`, where `size` is an `int`: from 2^31 on it is negative, and no array
of that many buckets can be allocated. -/
def rehash (HASH_GROW_STEP : Nat) (hash : MyHash) (callocOk : Bool) : Option MyHash :=
  let size := uint (HASH_GROW_STEP * hash.size)
  if !callocOk || 2 ^ 31 <= size then
    some hash
  else do
    let (heap, iter) <- rehashBuckets hash size (List.range hash.size)
      (hash.heap, fun _ => NULL)
    some { hash with heap := heap, buckets := iter, size := size }

/-!
## Lookup and insertion
-/

/-- `my_hash_init` of a table whose two allocations succeed. -/
def myHashInit (size : Nat) (ops : MyHashOps) : MyHash where
  num := 0
  size := if size = 0 then HASH_DEFAULT_SIZE else size
  buckets := fun _ => NULL
  ops := ops
  heap := fun _ => none
  log := []

/-- The loop of `my_hash_lookup` and of `my_hash_delete`: the first entry of the
chain at `pre` with an equal key, or `NULL`. -/
def findKey (ops : MyHashOps) (heap : Heap) (key : Ptr) : Nat -> Ptr -> Option Ptr
  | 0, _ => none
  | fuel + 1, pre =>
      if pre = NULL then
        some NULL
      else do
        let entry <- heap pre
        if ops.compare key entry.key = 0 then
          some pre
        else
          findKey ops heap key fuel entry.next

def myHashLookup (hash : MyHash) (key : Ptr) : Option Ptr :=
  if key = NULL then
    some NULL
  else
    findKey hash.ops hash.heap key (hash.num + 1)
      (hash.buckets (HASH_INDEX (hash.ops.hash key) hash.size))

def isFull (hash : MyHash) : Bool :=
  decide (sizet (HASH_FULL_ITERATE * hash.size) < hash.num)

/-- `if (num > HASH_FULL_ITERATE * size) rehash(hash);` -/
def rehashIfFull (HASH_GROW_STEP : Nat) (hash : MyHash) (callocOk : Bool) : Option MyHash :=
  if isFull hash then rehash HASH_GROW_STEP hash callocOk else some hash

/-- The end of `my_hash_lookadd`: the new entry at `p` becomes the first of its
chain. -/
def linkEntry (hash : MyHash) (p : Ptr) (entry : MyHashIter) : Option MyHash := do
  let idx := HASH_INDEX entry.keyHash hash.size
  let first := hash.buckets idx
  let heap := Function.update hash.heap p (some { entry with next := first })
  let heap <- writePrev heap first p
  some { hash with
    heap := heap
    buckets := Function.update hash.buckets idx p
    num := sizet (hash.num + 1) }

/-- `my_hash_lookadd`: the entry returned and the table after. -/
def myHashLookadd (HASH_GROW_STEP : Nat) (hash : MyHash) (key : Ptr)
    (outcome : Outcome) : Option (Ptr × MyHash) :=
  if key = NULL then
    some (NULL, hash)
  else do
    let iter <- myHashLookup hash key
    if iter ≠ NULL then
      some (iter, hash)
    else if outcome.entry = NULL then
      some (NULL, hash)
    else
      let hash := hash.logged hash.ops.keyDup (.keyDup key outcome.keyCopy)
      let entry := { MyHashIter.zero with
        key := if hash.ops.keyDup then outcome.keyCopy else key
        keyHash := hash.ops.hash key }
      let hash <- rehashIfFull HASH_GROW_STEP hash outcome.buckets
      let hash <- linkEntry hash outcome.entry entry
      some (outcome.entry, hash)

def myHashAdd (HASH_GROW_STEP : Nat) (hash : MyHash) (key value : Ptr)
    (outcome : Outcome) : Option (Ptr × MyHash) := do
  let (iter, hash) <- myHashLookadd HASH_GROW_STEP hash key outcome
  if iter = NULL then
    some (NULL, hash)
  else
    let entry <- hash.heap iter
    let hash := hash.logged hash.ops.valueFree (.valueFree entry.value)
    let hash := hash.logged hash.ops.valueDup (.valueDup value outcome.valueCopy)
    let heap <- writeIter hash.heap iter fun entry =>
      { entry with value := if hash.ops.valueDup then outcome.valueCopy else value }
    some (iter, { hash with heap := heap })

/-!
## Deletion
-/

/-- The end of `my_hash_iter_delete`: the entry leaves its chain and is freed. -/
def unlinkEntry (hash : MyHash) (iter : Ptr) (entry : MyHashIter) : Option MyHash := do
  let heap <- writePrev hash.heap entry.next entry.prev
  let heap <- writeNext heap entry.prev entry.next
  let idx := HASH_INDEX entry.keyHash hash.size
  some { hash with
    heap := Function.update heap iter none
    buckets := if entry.prev = NULL then
        Function.update hash.buckets idx entry.next
      else
        hash.buckets
    num := sizetSub hash.num 1
    log := .free iter :: hash.log }

def myHashIterDelete (hash : MyHash) (iter : Ptr) : Option MyHash :=
  if iter = NULL then
    some hash
  else do
    let entry <- hash.heap iter
    let hash := hash.logged hash.ops.valueFree (.valueFree entry.value)
    let hash := hash.logged hash.ops.keyFree (.keyFree entry.key)
    let cleared := { entry with value := NULL, key := NULL }
    if entry.foreach ≠ 0 then
      some { hash with
        heap := Function.update hash.heap iter (some { cleared with foreach := 0 }) }
    else
      unlinkEntry { hash with heap := Function.update hash.heap iter (some cleared) } iter
        cleared

def myHashDelete (hash : MyHash) (key : Ptr) : Option MyHash := do
  let iter <- findKey hash.ops hash.heap key (hash.num + 1)
    (hash.buckets (HASH_INDEX (hash.ops.hash key) hash.size))
  myHashIterDelete hash iter

/-!
## Clearing
-/

/-- The inner loop of `my_hash_clear`: the chain at `pre` is freed. -/
def clearChain : Nat -> Ptr -> MyHash -> Option MyHash
  | 0, _, _ => none
  | fuel + 1, pre, hash =>
      if pre = NULL then
        some hash
      else do
        let entry <- hash.heap pre
        let hash := hash.logged hash.ops.keyFree (.keyFree entry.key)
        let hash := hash.logged hash.ops.valueFree (.valueFree entry.value)
        clearChain fuel entry.next { hash with
          heap := Function.update hash.heap pre none
          log := .free pre :: hash.log }

/-- The outer loop of `my_hash_clear` over some buckets. -/
def clearBuckets : List Nat -> MyHash -> Option MyHash
  | [], hash => some hash
  | idx :: rest, hash => do
      let hash <- clearChain (hash.num + 1) (hash.buckets idx) hash
      clearBuckets rest { hash with buckets := Function.update hash.buckets idx NULL }

/-- `my_hash_clear`, where `none` is the null pointer. The first line leaves the
function when the pointer is not null. -/
def myHashClear (hash : Option MyHash) : Option (Option MyHash) :=
  if hash.isSome then
    some hash
  else do
    let table <- hash
    let table <- clearBuckets (List.range table.size) table
    some (some { table with num := 0 })

/-- `my_hash_uninit`: the entries that are still allocated after it, and what has
been given back. -/
def myHashUninit (hash : Option MyHash) : Option (Heap × List Event) := do
  let hash <- myHashClear hash
  let table <- hash
  some (table.heap, table.log)

/-!
## Walks
-/

/-- What a `my_hash_func` does: a state of its own, the key and the value of an
entry and the table go in, the result and both states after it come out. -/
abbrev MyHashFunc (τ : Type) := τ -> Ptr × Ptr -> MyHash -> Option (Nat × τ × MyHash)

/-- `pre->foreach = foreach;` -/
def writeForeach (hash : MyHash) (pre : Ptr) (foreach : Nat) : Option MyHash :=
  (writeIter hash.heap pre fun iter => { iter with foreach := foreach }).map fun heap =>
    { hash with heap := heap }

/-- What a walk does after the call: the next entry is read, and the entry is
deleted if it has lost its flag. -/
def leaveIter (pre : Ptr) (hash : MyHash) : Option (Ptr × MyHash) := do
  let iter <- hash.heap pre
  if iter.foreach = 0 then
    (myHashIterDelete hash pre).map fun hash => (iter.next, hash)
  else
    (writeForeach hash pre 0).map fun hash => (iter.next, hash)

/-- The inner loop of `my_hash_foreach`: the last result and the states after. -/
def walkChain {τ : Type} (func : MyHashFunc τ) :
    Nat -> Ptr -> τ -> MyHash -> Option (Nat × τ × MyHash)
  | 0, _, _, _ => none
  | turns + 1, pre, own, hash =>
      if pre = NULL then
        some (0, own, hash)
      else do
        let hash <- writeForeach hash pre 1
        let iter <- hash.heap pre
        let (ret, own, hash) <- func own (iter.key, iter.value) hash
        let (pre, hash) <- leaveIter pre hash
        if ret ≠ 0 then some (ret, own, hash) else walkChain func turns pre own hash

/-- The outer loop of `my_hash_foreach`, from bucket `idx` on. -/
def walkBuckets {τ : Type} (func : MyHashFunc τ) (turns : Nat) :
    Nat -> Nat -> τ -> MyHash -> Option (τ × MyHash)
  | 0, _, _, _ => none
  | fuel + 1, idx, own, hash =>
      if idx < hash.size then do
        let (ret, own, hash) <- walkChain func turns (hash.buckets idx) own hash
        if ret ≠ 0 then some (own, hash) else walkBuckets func turns fuel (idx + 1) own hash
      else
        some (own, hash)

def myHashForeach {τ : Type} (turns : Nat) (hash : MyHash) (func : Option (MyHashFunc τ))
    (own : τ) : Option (τ × MyHash) :=
  match func with
  | none => some (own, hash)
  | some func => walkBuckets func turns turns 0 own hash

end ChainedHash
end MyLibs
