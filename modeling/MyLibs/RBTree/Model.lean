import MyLibs.RBTree.Nodes

/-!
# The red-black tree of `my_rbtree.c`

The operations on a whole tree. Keys are what `ELEMENT_KEY` leads to, so that the
two ways to store them look the same here; `my_malloc` and `alloc_root` answer
with an address that depends on the heap, or `NULL`. What `free_root` leaves of the
elements comes with the tree.
-/

namespace MyLibs
namespace RBTree

open Foundation

def rbtree_NO_DUPLICATES : Nat := 1

/-- More than there are addresses: the recursions and the loop of a search take
one turn for every level of the tree. -/
def turnLimit : Nat := 2 ^ 64

/-- `sizeof(rbtree_element)`. -/
def sizeofElement : Nat := 24

variable {κ : Type _}

inductive Event (κ : Type _) where
  | freeInit
  | freeFree (key : κ)
  | freeUninit
  | myFree (element : Ptr)

structure RbTree (κ : Type _) where
  nodes : Nodes κ
  offset : Nat
  elements : Nat
  size : Nat
  memoryLimit : Nat
  allocated : Nat
  compare : κ -> κ -> Int
  isDelete : Bool
  /-- Whether there is a free function. -/
  free : Bool
  /-- What `free_root` makes of the elements. -/
  freeRoot : (Ptr -> Option (Element κ)) -> Ptr -> Option (Element κ)
  flag : Nat
  /-- Newest first. -/
  log : List (Event κ)

abbrev Malloc (κ : Type _) := (Ptr -> Option (Element κ)) -> Ptr

/-- `rbtree_init` of the tree whose `null_element` is at this address. -/
def rbtreeInit (nullAddress : Ptr) (memoryLimit : Nat) (size : Int) (compare : κ -> κ -> Int)
    (isDelete free : Bool) (freeRoot : (Ptr -> Option (Element κ)) -> Ptr -> Option (Element κ)) :
    RbTree κ :=
  let inElement := !free && decide (0 <= size) &&
    (decide (size <= sizeofPtr) || decide (size % sizeofPtr ≠ 0))
  { nodes := {
      root := nullAddress
      nullElement := nullAddress
      parents := fun _ => .root
      heap := Function.update (fun _ => none) nullAddress (some nullElement) }
    offset := if inElement then sizeofElement else 0
    elements := 0
    size := if inElement then size.toNat else uint (size.toNat + sizeofPtr)
    memoryLimit := memoryLimit
    allocated := 0
    compare := compare
    isDelete := isDelete
    free := free
    freeRoot := freeRoot
    flag := 0
    log := [] }

/-!
## Reset
-/

def RbTree.logged (tree : RbTree κ) (set : Bool) (event : Event κ) : RbTree κ :=
  if set then { tree with log := event :: tree.log } else tree

/-- `my_free(element);` -/
def RbTree.release (tree : RbTree κ) (element : Ptr) : RbTree κ :=
  { tree with
    nodes := { tree.nodes with heap := Function.update tree.nodes.heap element none }
    log := .myFree element :: tree.log }

def rbtreeUninitElement : Nat -> RbTree κ -> Ptr -> Except Fault (RbTree κ)
  | 0, _, _ => .error .noFuel
  | fuel + 1, tree, element =>
      if element = tree.nodes.nullElement then
        .ok tree
      else do
        let e <- tree.nodes.element element
        let tree <- rbtreeUninitElement fuel tree e.left
        let key <- tree.nodes.elementKey element
        let tree := tree.logged tree.free (.freeFree key)
        let tree <- rbtreeUninitElement fuel tree e.right
        if tree.isDelete then
          .ok (tree.release element)
        else
          .ok tree

/-- `free_root(&tree->mem_root);` -/
def RbTree.freeMemRoot (tree : RbTree κ) : RbTree κ :=
  { tree with nodes := { tree.nodes with heap := tree.freeRoot tree.nodes.heap } }

/-- The elements given back by `rbtree_free` of a tree that is not `is_delete`. -/
def freeInRoot (tree : RbTree κ) : Except Fault (RbTree κ) :=
  if tree.free then do
    let limited := decide (tree.memoryLimit ≠ 0)
    let tree := tree.logged limited .freeInit
    let tree <- rbtreeUninitElement turnLimit tree tree.nodes.root
    .ok (tree.logged limited .freeUninit).freeMemRoot
  else
    .ok tree.freeMemRoot

/-- The elements given back by `rbtree_free`. -/
def freeElements (tree : RbTree κ) : Except Fault (RbTree κ) :=
  if tree.nodes.root = NULL then
    .ok tree
  else if tree.isDelete then
    rbtreeUninitElement turnLimit tree tree.nodes.root
  else
    freeInRoot tree

def rbtreeFree (tree : RbTree κ) : Except Fault (RbTree κ) := do
  let tree <- freeElements tree
  .ok { tree with
    nodes := { tree.nodes with root := tree.nodes.nullElement }
    elements := 0
    allocated := 0 }

def rbtreeUninit (tree : RbTree κ) : Except Fault (RbTree κ) :=
  rbtreeFree tree

def rbtreeReset (tree : RbTree κ) : Except Fault (RbTree κ) :=
  rbtreeFree tree

/-!
## Insertion
-/

/-- The loop at the start of `rbtree_insert` and `rbtree_delete`: the nodes, the
place of `parent` and the element after. -/
def descend (compare : κ -> κ -> Int) (key : κ) :
    Nat -> Nodes κ -> Nat -> Ptr -> Except Fault (Nodes κ × Nat × Ptr)
  | 0, _, _, _ => .error .noFuel
  | fuel + 1, s, parent, element =>
      if element = s.nullElement then
        .ok (s, parent, element)
      else do
        let elementKey <- s.elementKey element
        let cmp := compare elementKey key
        if cmp = 0 then
          .ok (s, parent, element)
        else
          let d := if cmp < 0 then Dir.right else Dir.left
          let s <- s.setParent (parent + 1) (.child d element)
          let e <- s.element element
          descend compare key fuel s (parent + 1) (e.child d)

/-- `parents[0] = &tree->root` and the descent from the root. -/
def findPlace (tree : RbTree κ) (key : κ) : Except Fault (Nodes κ × Nat × Ptr) := do
  let s <- tree.nodes.setParent 0 .root
  descend tree.compare key (MAX_rbtree_HEIGHT + 1) s 0 s.root

/-- A new element at `block` becomes a leaf of the tree. Its colour is written
by `rb_insert`. -/
def linkElement (s : Nodes κ) (parent : Nat) (block : Ptr) (key : κ) :
    Except Fault (Nodes κ) := do
  let link <- s.parentAt parent
  let element : Element κ :=
    { left := s.nullElement
      right := s.nullElement
      count := 1
      colour := .red
      key := some key }
  let s := { s with heap := Function.update s.heap block (some element) }
  let s <- s.write link block
  rbInsert s parent block

/-- `element->count++` without a wrap over of the 31 bits of the count. -/
def countUp (count : Nat) : Nat :=
  let count := (count + 1) % 2 ^ 31
  if count = 0 then 2 ^ 31 - 1 else count

def RbTree.overLimit (tree : RbTree κ) : Bool :=
  decide (tree.memoryLimit ≠ 0) && decide (tree.elements ≠ 0) &&
    decide (tree.memoryLimit < tree.allocated)

def insertElement (malloc : Malloc κ) (key : κ) (tree : RbTree κ) (parent : Nat) :
    Except Fault (Ptr × RbTree κ) :=
  let element := malloc tree.nodes.heap
  if element = NULL then
    .ok (NULL, tree)
  else do
    let s <- linkElement tree.nodes parent element key
    .ok (element, { tree with nodes := s, elements := uint (tree.elements + 1) })

def countElement (tree : RbTree κ) (element : Ptr) : Except Fault (Ptr × RbTree κ) :=
  if tree.flag % 2 = rbtree_NO_DUPLICATES then
    .ok (NULL, tree)
  else do
    let s <- tree.nodes.modify element fun e => { e with count := countUp e.count }
    .ok (element, { tree with nodes := s })

/-- `alloc_size` in `rbtree_insert` -/
def allocSize (tree : RbTree κ) (keySize : Nat) : Nat :=
  uint (sizeofElement + keySize + tree.size)

/-- `rbtree_insert`: the element returned, or `NULL`, and the tree after. The
fuel counts how often the call enters itself. -/
def rbtreeInsertWith (malloc : Malloc κ) (key : κ) (keySize : Nat) :
    Nat -> RbTree κ -> Except Fault (Ptr × RbTree κ)
  | 0, _ => .error .noFuel
  | fuel + 1, tree => do
      let (s, parent, element) <- findPlace tree key
      let tree := { tree with nodes := s }
      if element = s.nullElement then
        let tree := { tree with allocated := sizet (tree.allocated + allocSize tree keySize) }
        if tree.overLimit then
          let tree <- rbtreeReset tree
          rbtreeInsertWith malloc key keySize fuel tree
        else
          insertElement malloc key tree parent
      else
        countElement tree element

def rbtreeInsert (tree : RbTree κ) (key : κ) (keySize : Nat) (malloc : Malloc κ) :
    Except Fault (Ptr × RbTree κ) :=
  rbtreeInsertWith malloc key keySize 2 tree

/-!
## Deletion
-/

/-- `while (nod->left != &tree->null_element)`: the nodes, the place of `parent`
and `nod` after. -/
def leftmost : Nat -> Nodes κ -> Nat -> Ptr -> Except Fault (Nodes κ × Nat × Ptr)
  | 0, _, _, _ => .error .noFuel
  | fuel + 1, s, parent, nod => do
      let e <- s.element nod
      if e.left = s.nullElement then
        .ok (s, parent, nod)
      else
        let s <- s.setParent (parent + 1) (.child .left nod)
        leftmost fuel s (parent + 1) e.left

/-- `nod`, which `parent` leads to, leaves its place for that of `element`. The
nodes and the removed colour. -/
def takePlace (s : Nodes κ) (orgParent parent : Nat) (element nod : Ptr) :
    Except Fault (Nodes κ × Colour) := do
  let nodElement <- s.element nod
  let link <- s.parentAt parent
  let s <- s.write link nodElement.right
  let orgLink <- s.parentAt orgParent
  let s <- s.write orgLink nod
  let s <- s.setParent (orgParent + 1) (.child .right nod)
  let e <- s.element element
  let s <- s.modify nod fun n => { n with left := e.left, right := e.right, colour := e.colour }
  .ok (s, nodElement.colour)

/-- The branch for an element with two children: the nodes, the place of `parent`
and the removed colour. -/
def unlinkSuccessor (s : Nodes κ) (orgParent : Nat) (element : Ptr) :
    Except Fault (Nodes κ × Nat × Colour) := do
  let e <- s.element element
  let s <- s.setParent (orgParent + 1) (.child .right element)
  let (s, parent, nod) <- leftmost (MAX_rbtree_HEIGHT + 1) s (orgParent + 1) e.right
  let (s, removeColour) <- takePlace s orgParent parent element nod
  .ok (s, parent, removeColour)

def unlink (s : Nodes κ) (parent : Nat) (element : Ptr) :
    Except Fault (Nodes κ × Nat × Colour) := do
  let e <- s.element element
  if e.left = s.nullElement then
    let link <- s.parentAt parent
    let s <- s.write link e.right
    .ok (s, parent, e.colour)
  else if e.right = s.nullElement then
    let link <- s.parentAt parent
    let s <- s.write link e.left
    .ok (s, parent, e.colour)
  else
    unlinkSuccessor s parent element

/-- `if (remove_colour == BLACK) rb_delete_fixup(tree, parent);` -/
def fixupIfBlack (s : Nodes κ) (parent : Nat) (removeColour : Colour) :
    Except Fault (Nodes κ) :=
  if removeColour = .black then rbDeleteFixup s parent else .ok s

def takeOut (s : Nodes κ) (parent : Nat) (element : Ptr) : Except Fault (Nodes κ) := do
  let (s, parent, removeColour) <- unlink s parent element
  fixupIfBlack s parent removeColour

/-- The end of `rbtree_delete`: the element is given back. -/
def dropElement (tree : RbTree κ) (element : Ptr) (keySize : Nat) :
    Except Fault (RbTree κ) := do
  let elementKey <- tree.nodes.elementKey element
  let tree := tree.logged tree.free (.freeFree elementKey)
  let tree := { tree with
    allocated := sizetSub tree.allocated (sizeofElement + tree.size + keySize) }
  let tree := tree.release element
  .ok { tree with elements := uint (tree.elements + (2 ^ 32 - 1)) }

def rbtreeDelete (tree : RbTree κ) (key : κ) (keySize : Nat) :
    Except Fault (Nat × RbTree κ) :=
  if !tree.isDelete then
    .ok (1, tree)
  else do
    let (s, parent, element) <- findPlace tree key
    if element = s.nullElement then
      .ok (1, { tree with nodes := s })
    else
      let s <- takeOut s parent element
      let tree <- dropElement { tree with nodes := s } element keySize
      .ok (0, tree)

/-!
## Search and self-test
-/

/-- The loop of `rbtree_search`. -/
def searchLoop (compare : κ -> κ -> Int) (key : κ) (s : Nodes κ) :
    Nat -> Ptr -> Except Fault (Option κ)
  | 0, _ => .error .noFuel
  | fuel + 1, element =>
      if element = s.nullElement then
        .ok none
      else do
        let elementKey <- s.elementKey element
        let cmp := compare elementKey key
        if cmp = 0 then
          .ok (some elementKey)
        else
          let e <- s.element element
          searchLoop compare key s fuel (if cmp < 0 then e.right else e.left)

/-- `rbtree_search`: the key stored for an equal one, if there is one. -/
def rbtreeSearch (tree : RbTree κ) (key : κ) : Except Fault (Option κ) :=
  searchLoop tree.compare key tree.nodes turnLimit tree.nodes.root

def testRbTree (s : Nodes κ) : Nat -> Ptr -> Except Fault Int
  | 0, _ => .error .noFuel
  | fuel + 1, element => do
      let e <- s.element element
      if e.left = NULL then
        .ok 0
      else
        let left <- s.element e.left
        let right <- s.element e.right
        if e.colour = .red ∧ (left.colour = .red ∨ right.colour = .red) then
          .ok (-1)
        else
          let countL <- testRbTree s fuel e.left
          let countR <- testRbTree s fuel e.right
          if countL < 0 ∨ countR < 0 ∨ countL ≠ countR then
            .ok (-1)
          else
            .ok (countL + if e.colour = .black then 1 else 0)

end RBTree
end MyLibs
