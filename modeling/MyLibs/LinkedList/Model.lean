import Mathlib.Logic.Function.Basic
import MyLibs.Platform

/-!
# The doubly linked list of `my_list.c`

The memory holds list headers and items, each at its address. Every function is
translated with the memory it reads and writes. A function returns `none` where
the source would touch an address that holds nothing, or when a loop takes more
turns than the list is long. A walk, whose callback may change the list, is told
how many turns it may take.

The links and the deferred-delete flag of an item, which the header declares
under other names, are the members `__next`, `__prev` and `__foreach` that the
code uses. A block that `my_malloc` returns has arbitrary contents, and an item
keeps of them what its function does not write.
-/

namespace MyLibs
namespace LinkedList

structure MyListIter where
  data : Ptr
  list : Ptr
  next : Ptr
  prev : Ptr
  foreach : Int
deriving DecidableEq

structure MyList where
  head : Ptr
  tail : Ptr
  length : Nat
deriving DecidableEq

structure Memory where
  lists : Ptr -> Option MyList
  items : Ptr -> Option MyListIter
  /-- The items given to `my_free`, newest first. -/
  log : List Ptr

/-- What `my_malloc` returns for an item: an address or `NULL`, and what is
there. -/
structure Block where
  address : Ptr
  contents : MyListIter

namespace Memory

def writeItem (mem : Memory) (p : Ptr) (f : MyListIter -> MyListIter) : Option Memory :=
  (mem.items p).map fun item =>
    { mem with items := Function.update mem.items p (some (f item)) }

def writeList (mem : Memory) (p : Ptr) (f : MyList -> MyList) : Option Memory :=
  (mem.lists p).map fun header =>
    { mem with lists := Function.update mem.lists p (some (f header)) }

def newItem (mem : Memory) (block : Block) (f : MyListIter -> MyListIter) : Memory :=
  { mem with items := Function.update mem.items block.address (some (f block.contents)) }

/-- `if (p) p->__prev = prev;` -/
def writePrev (mem : Memory) (p prev : Ptr) : Option Memory :=
  if p = NULL then some mem
  else mem.writeItem p fun item => { item with prev := prev }

/-- `if (p) p->__prev = prev; else list->tail = prev;` -/
def writePrevOrTail (mem : Memory) (list p prev : Ptr) : Option Memory :=
  if p = NULL then mem.writeList list fun header => { header with tail := prev }
  else mem.writeItem p fun item => { item with prev := prev }

/-- `if (p) p->__next = next; else list->head = next;` -/
def writeNextOrHead (mem : Memory) (list p next : Ptr) : Option Memory :=
  if p = NULL then mem.writeList list fun header => { header with head := next }
  else mem.writeItem p fun item => { item with next := next }

end Memory

/-- `my_list_init`, when the allocation succeeds. -/
def myListInit : MyList where
  head := NULL
  tail := NULL
  length := 0

def myListClear (mem : Memory) (list : Ptr) : Option Memory :=
  mem.writeList list fun _ => { head := NULL, tail := NULL, length := 0 }

/-- The loop of `my_list_uninit`. -/
def freeItems : Nat -> Ptr -> Memory -> Option Memory
  | 0, _, _ => none
  | fuel + 1, current, mem => do
      let item <- mem.items current
      let mem := { mem with
        items := Function.update mem.items current none
        log := current :: mem.log }
      if item.next = NULL then some mem else freeItems fuel item.next mem

/-- `my_list_uninit` before the header is given back. -/
def freeList (mem : Memory) (header : MyList) : Option Memory :=
  if 0 < header.length then freeItems header.length header.head mem else some mem

def myListUninit (mem : Memory) (list : Ptr) : Option Memory :=
  if list = NULL then
    some mem
  else do
    let header <- mem.lists list
    let mem <- freeList mem header
    some { mem with lists := Function.update mem.lists list none }

/-!
## Searching
-/

/-- The loop of `my_list_lookup`, `my_list_delete` and `my_list_sortadd`: the
first item from `item` on with such data, or `NULL`. -/
def findItem (mem : Memory) (found : Ptr -> Bool) : Nat -> Ptr -> Option Ptr
  | 0, _ => none
  | fuel + 1, item =>
      if item = NULL then
        some NULL
      else do
        let iter <- mem.items item
        if found iter.data then some item else findItem mem found fuel iter.next

def findFromHead (mem : Memory) (list : Ptr) (found : Ptr -> Bool) : Option Ptr := do
  let header <- mem.lists list
  findItem mem found (header.length + 1) header.head

def myListLookup (mem : Memory) (list data : Ptr) : Option Ptr :=
  if list = NULL then some NULL
  else findFromHead mem list fun other => data == other

/-!
## Insertion
-/

def myListAdd (mem : Memory) (list data : Ptr) (block : Block) : Option (Ptr × Memory) :=
  if list = NULL then
    some (NULL, mem)
  else if block.address = NULL then
    some (NULL, mem)
  else do
    let item := block.address
    let header <- mem.lists list
    let mem := mem.newItem block fun contents =>
      { contents with data := data, list := list, next := header.head, prev := NULL }
    let mem <- mem.writeList list fun header => { header with head := item }
    let mem <- mem.writePrev header.head item
    let mem <- mem.writeList list fun header =>
      { header with
        tail := if header.tail = NULL then item else header.tail
        length := sizet (header.length + 1) }
    some (item, mem)

def myListPrepend (mem : Memory) (list data : Ptr) (block : Block) :
    Option (Ptr × Memory) :=
  if list = NULL then
    some (NULL, mem)
  else if block.address = NULL then
    some (NULL, mem)
  else do
    let item := block.address
    let header <- mem.lists list
    let mem := mem.newItem block fun contents =>
      { contents with list := list, data := data, prev := NULL, next := header.head }
    let mem <- mem.writeList list fun header => { header with head := item }
    let mem <- mem.writePrevOrTail list header.head item
    let mem <- mem.writeList list fun header =>
      { header with length := sizet (header.length + 1) }
    some (item, mem)

def myListAppend (mem : Memory) (list data : Ptr) (block : Block) :
    Option (Ptr × Memory) :=
  if list = NULL then
    some (NULL, mem)
  else if block.address = NULL then
    some (NULL, mem)
  else do
    let item := block.address
    let header <- mem.lists list
    let mem := mem.newItem block fun contents =>
      { contents with list := list, data := data, prev := header.tail, next := NULL }
    let mem <- mem.writeList list fun header => { header with tail := item }
    let mem <- mem.writeNextOrHead list header.tail item
    let mem <- mem.writeList list fun header =>
      { header with length := sizet (header.length + 1) }
    some (item, mem)

def myListLookadd (mem : Memory) (list data : Ptr) (block : Block) :
    Option (Ptr × Memory) :=
  if list = NULL then
    some (NULL, mem)
  else do
    let item <- myListLookup mem list data
    if item ≠ NULL then some (item, mem) else myListAdd mem list data block

def myListIterInsert (mem : Memory) (iter data : Ptr) (block : Block) :
    Option (Ptr × Memory) :=
  if iter = NULL then
    some (NULL, mem)
  else do
    let next <- mem.items iter
    let header <- mem.lists next.list
    if header.head = iter then
      myListPrepend mem next.list data block
    else if block.address = NULL then
      some (NULL, mem)
    else do
      let item := block.address
      let mem := mem.newItem block fun contents =>
        { contents with data := data, list := next.list, prev := next.prev, next := iter }
      let mem <- mem.writeItem next.prev fun prev => { prev with next := item }
      let mem <- mem.writeItem iter fun next => { next with prev := item }
      let mem <- mem.writeList next.list fun header =>
        { header with length := sizet (header.length + 1) }
      some (item, mem)

/-- `my_list_sortadd`; the callback returns an `unsigned int`. -/
def myListSortadd (mem : Memory) (list : Ptr) (func : Option (Ptr -> Ptr -> Nat))
    (data : Ptr) (block : Block) : Option (Ptr × Memory) :=
  match func with
  | none => some (NULL, mem)
  | some func =>
      if list = NULL then
        some (NULL, mem)
      else do
        let item <- findFromHead mem list fun other => decide (0 < func other data)
        if item ≠ NULL then myListIterInsert mem item data block
        else myListAppend mem list data block

/-!
## Deletion
-/

def myListIterDelete (mem : Memory) (iter : Ptr) : Option Memory :=
  if iter = NULL then
    some mem
  else do
    let item <- mem.items iter
    if item.foreach = 1 then
      mem.writeItem iter fun item => { item with foreach := 0 }
    else do
      let mem <- mem.writePrevOrTail item.list item.next item.prev
      let mem <- mem.writeNextOrHead item.list item.prev item.next
      let mem <- mem.writeList item.list fun header =>
        { header with length := sizetSub header.length 1 }
      some { mem with
        items := Function.update mem.items iter none
        log := iter :: mem.log }

def myListDelete (mem : Memory) (list data : Ptr) : Option (Int × Memory) :=
  if list = NULL then
    some (-1, mem)
  else do
    let item <- findFromHead mem list fun other => data == other
    if item = NULL then
      some (-1, mem)
    else do
      let mem <- myListIterDelete mem item
      some (0, mem)

/-!
## Walks
-/

/-- What a `my_list_func_t` does: a state of its own, the data of an item and the
memory go in, the result and both states after it come out. -/
abbrev MyListFunc (τ : Type) := τ -> Ptr -> Memory -> Option (Nat × τ × Memory)

/-- What a walk does after the call: the next item is read, and the item is
deleted if it has lost its flag. -/
def leaveItem (next : MyListIter -> Ptr) (item : Ptr) (mem : Memory) :
    Option (Ptr × Memory) := do
  let iter <- mem.items item
  if iter.foreach = 0 then
    (myListIterDelete mem item).map fun mem => (next iter, mem)
  else
    (mem.writeItem item fun iter => { iter with foreach := 0 }).map fun mem => (next iter, mem)

/-- The loop of `my_list_foreach` and of `my_list_rforeach`. -/
def walkItems {τ : Type} (next : MyListIter -> Ptr) (func : MyListFunc τ) :
    Nat -> Ptr -> τ -> Memory -> Option (τ × Memory)
  | 0, _, _, _ => none
  | turns + 1, item, own, mem =>
      if item = NULL then
        some (own, mem)
      else do
        let mem <- mem.writeItem item fun iter => { iter with foreach := 1 }
        let iter <- mem.items item
        let (ret, own, mem) <- func own iter.data mem
        let (item, mem) <- leaveItem next item mem
        if ret ≠ 0 then some (own, mem) else walkItems next func turns item own mem

def walkList {τ : Type} (first : MyList -> Ptr) (next : MyListIter -> Ptr) (turns : Nat)
    (mem : Memory) (list : Ptr) (func : Option (MyListFunc τ)) (own : τ) :
    Option (τ × Memory) :=
  match func with
  | none => some (own, mem)
  | some func =>
      if list = NULL then
        some (own, mem)
      else do
        let header <- mem.lists list
        walkItems next func turns (first header) own mem

def myListForeach {τ : Type} (turns : Nat) (mem : Memory) (list : Ptr)
    (func : Option (MyListFunc τ)) (own : τ) : Option (τ × Memory) :=
  walkList MyList.head MyListIter.next turns mem list func own

def myListRforeach {τ : Type} (turns : Nat) (mem : Memory) (list : Ptr)
    (func : Option (MyListFunc τ)) (own : τ) : Option (τ × Memory) :=
  walkList MyList.tail MyListIter.prev turns mem list func own

end LinkedList
end MyLibs
