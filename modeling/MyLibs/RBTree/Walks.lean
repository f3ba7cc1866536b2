import MyLibs.RBTree.Model

/-!
# Walks and searches along a path

The functions of `my_rbtree.c` that leave a path in an array of the caller, and
the recursive walks. An offset of a child, which the source passes as an `int`,
is its side. The recursion of a walk is given the turns it may take; the loops
along the array may take one more than it has places.
-/

namespace MyLibs
namespace RBTree

open Foundation

variable {κ τ : Type _}

/-- The caller's array `parents`, and the place in it at `*last_pos`, or `NULL`. -/
structure SearchPath where
  places : Nat
  parents : Nat -> Ptr
  lastPos : Option Nat

namespace SearchPath

/-- `parents[i]` -/
def parentAt (path : SearchPath) (i : Nat) : Except Fault Ptr :=
  if i < path.places then .ok (path.parents i) else .error .badIndex

/-- `parents[i] = p;` -/
def setParent (path : SearchPath) (i : Nat) (p : Ptr) : Except Fault SearchPath :=
  if i < path.places then
    .ok { path with parents := Function.update path.parents i p }
  else
    .error .badIndex

/-- The place that `**last_pos` reads. -/
def last (path : SearchPath) : Except Fault Nat :=
  match path.lastPos with
  | some i => .ok i
  | none => .error .badPointer

end SearchPath

/-- The key of an element, `NULL` for the sentinel. -/
def keyOrNull (s : Nodes κ) (p : Ptr) : Except Fault (Option κ) :=
  if p = s.nullElement then
    .ok none
  else do
    let key <- s.elementKey p
    .ok (some key)

/-!
## The first and the next element
-/

/-- The loop of `rbtree_search_edge`: the path and the place of its end. -/
def edgeLoop (s : Nodes κ) (childOffs : Dir) :
    Nat -> SearchPath -> Nat -> Ptr -> Except Fault (SearchPath × Nat)
  | 0, _, _, _ => .error .noFuel
  | fuel + 1, path, i, element =>
      if element = s.nullElement then
        .ok (path, i)
      else do
        let path <- path.setParent (i + 1) element
        let e <- s.element element
        edgeLoop s childOffs fuel path (i + 1) (e.child childOffs)

def rbtreeSearchEdge (tree : RbTree κ) (path : SearchPath) (childOffs : Dir) :
    Except Fault (Option κ × SearchPath) := do
  let s := tree.nodes
  let path <- path.setParent 0 s.nullElement
  let (path, i) <- edgeLoop s childOffs (path.places + 1) path 0 s.root
  let element <- path.parentAt i
  let key <- keyOrNull s element
  .ok (key, { path with lastPos := some i })

/-- `while (ELEMENT_CHILD(x, l_offs) != &tree->null_element)`: the path, the
place of its end and `x` after. -/
def nextLoop (s : Nodes κ) (lOffs : Dir) :
    Nat -> SearchPath -> Nat -> Ptr -> Except Fault (SearchPath × Nat × Ptr)
  | 0, _, _, _ => .error .noFuel
  | fuel + 1, path, i, x => do
      let e <- s.element x
      if e.child lOffs = s.nullElement then
        .ok (path, i, x)
      else
        let path <- path.setParent (i + 1) (e.child lOffs)
        nextLoop s lOffs fuel path (i + 1) (e.child lOffs)

/-- `y = *--*last_pos` and the loop after it, from the place of `x`: the place
and `y` after. -/
def climb (s : Nodes κ) (rOffs : Dir) (path : SearchPath) : Nat -> Ptr -> Except Fault (Nat × Ptr)
  | 0, _ => .error .badIndex
  | i + 1, x => do
      let y <- path.parentAt i
      if y = s.nullElement then
        .ok (i, y)
      else
        let e <- s.element y
        if x = e.child rOffs then climb s rOffs path i y else .ok (i, y)

def rbtreeSearchNext (tree : RbTree κ) (path : SearchPath) (lOffs rOffs : Dir) :
    Except Fault (Option κ × SearchPath) := do
  let s := tree.nodes
  let pos <- path.last
  let x <- path.parentAt pos
  let e <- s.element x
  if e.child rOffs ≠ s.nullElement then
    let path <- path.setParent (pos + 1) (e.child rOffs)
    let (path, i, x) <- nextLoop s lOffs (path.places + 1) path (pos + 1) (e.child rOffs)
    let key <- s.elementKey x
    .ok (some key, { path with lastPos := some i })
  else
    let (i, y) <- climb s rOffs path pos x
    let key <- keyOrNull s y
    .ok (key, { path with lastPos := some i })

/-!
## The search for a key
-/

inductive HaReadFunc where
  | HA_READ_KEY_EXACT
  | HA_READ_KEY_OR_NEXT
  | HA_READ_KEY_OR_PREV
  | HA_READ_AFTER_KEY
  | HA_READ_BEFORE_KEY
  | HA_READ_PREFIX
  | HA_READ_PREFIX_LAST
  | HA_READ_PREFIX_LAST_OR_PREV
  | HA_READ_MBR_CONTAIN
  | HA_READ_MBR_INTERSECT
  | HA_READ_MBR_WITHIN
  | HA_READ_MBR_DISJOINT
  | HA_READ_MBR_EQUAL

/-- The variables of `rbtree_search_key`: places in the array, or `NULL`. -/
structure LastPlaces where
  leftStepParent : Option Nat
  rightStepParent : Option Nat
  equalElement : Option Nat

/-- The first `switch` of `rbtree_search_key`, at an equal element: whether the
element is noted, and the new `cmp`; or the function returns. -/
def HaReadFunc.atEqual : HaReadFunc -> Option (Bool × Int)
  | .HA_READ_KEY_EXACT => some (true, 1)
  | .HA_READ_KEY_OR_NEXT => some (true, 1)
  | .HA_READ_BEFORE_KEY => some (true, 1)
  | .HA_READ_AFTER_KEY => some (false, -1)
  | .HA_READ_PREFIX_LAST => some (true, -1)
  | .HA_READ_PREFIX_LAST_OR_PREV => some (true, -1)
  | _ => none

/-- The second `switch`: what `*last_pos` is set to; or the function returns. -/
def HaReadFunc.lastPos (flag : HaReadFunc) (last : LastPlaces) : Option (Option Nat) :=
  match flag with
  | .HA_READ_KEY_EXACT => some last.equalElement
  | .HA_READ_PREFIX_LAST => some last.equalElement
  | .HA_READ_KEY_OR_NEXT => some (last.equalElement <|> last.leftStepParent)
  | .HA_READ_AFTER_KEY => some last.leftStepParent
  | .HA_READ_PREFIX_LAST_OR_PREV => some (last.equalElement <|> last.rightStepParent)
  | .HA_READ_BEFORE_KEY => some last.rightStepParent
  | _ => none

/-- The loop of `rbtree_search_key`; without places where it makes the function
return. -/
def searchKeyLoop (s : Nodes κ) (compare : κ -> Int) (flag : HaReadFunc) :
    Nat -> SearchPath -> Nat -> LastPlaces -> Ptr ->
      Except Fault (Option LastPlaces × SearchPath)
  | 0, _, _, _, _ => .error .noFuel
  | fuel + 1, path, i, last, element =>
      if element = s.nullElement then
        .ok (some last, path)
      else do
        let i := i + 1
        let path <- path.setParent i element
        let key <- s.elementKey element
        let cmp := compare key
        match if cmp = 0 then flag.atEqual else some (false, cmp) with
        | none => .ok (none, path)
        | some (equal, cmp) =>
            let last := if equal then { last with equalElement := some i } else last
            let e <- s.element element
            if cmp < 0 then
              searchKeyLoop s compare flag fuel path i
                { last with rightStepParent := some i } e.right
            else
              searchKeyLoop s compare flag fuel path i
                { last with leftStepParent := some i } e.left

/-- The end of `rbtree_search_key`. -/
def searchKeyEnd (s : Nodes κ) (flag : HaReadFunc) (path : SearchPath) (last : LastPlaces) :
    Except Fault (Option κ × SearchPath) :=
  match flag.lastPos last with
  | none => .ok (none, path)
  | some none => .ok (none, { path with lastPos := none })
  | some (some i) => do
      let element <- path.parentAt i
      let key <- s.elementKey element
      .ok (some key, { path with lastPos := some i })

/-- `rbtree_search_key`; the comparison of an element's key with the key searched
for is `compare`. -/
def searchKey (tree : RbTree κ) (compare : κ -> Int) (path : SearchPath) (flag : HaReadFunc) :
    Except Fault (Option κ × SearchPath) := do
  let s := tree.nodes
  let path <- path.setParent 0 s.nullElement
  let (last, path) <- searchKeyLoop s compare flag (path.places + 1) path 0 ⟨none, none, none⟩
    s.root
  match last with
  | none => .ok (none, path)
  | some last => searchKeyEnd s flag path last

def rbtreeSearchKey (tree : RbTree κ) (key : κ) (path : SearchPath) (flag : HaReadFunc) :
    Except Fault (Option κ × SearchPath) :=
  searchKey tree (fun elementKey => tree.compare elementKey key) path flag

/-!
## Walks
-/

inductive RbtreeWalkType where
  | LEFT_ROOT_RIGHT
  | RIGHT_ROOT_LEFT

/-- `rbtree_walk_action`: the result, and the caller's argument after. -/
abbrev RbtreeWalkAction (κ τ : Type _) := κ -> Nat -> τ -> Int × τ

/-- The walk that starts on side `d`. The sentinel is known by its missing child. -/
def walk (d : Dir) (s : Nodes κ) (action : RbtreeWalkAction κ τ) :
    Nat -> Ptr -> τ -> Except Fault (Int × τ)
  | 0, _, _ => .error .noFuel
  | turns + 1, element, argument => do
      let e <- s.element element
      if e.child d = NULL then
        .ok (0, argument)
      else
        let (error, argument) <- walk d s action turns (e.child d) argument
        if error ≠ 0 then
          .ok (error, argument)
        else
          let key <- s.elementKey element
          let (error, argument) := action key e.count argument
          if error ≠ 0 then
            .ok (error, argument)
          else
            walk d s action turns (e.child d.other) argument

def rbtreeWalkLeftRootRight (s : Nodes κ) (action : RbtreeWalkAction κ τ) (turns : Nat)
    (element : Ptr) (argument : τ) : Except Fault (Int × τ) :=
  walk .left s action turns element argument

def rbtreeWalkRightRootLeft (s : Nodes κ) (action : RbtreeWalkAction κ τ) (turns : Nat)
    (element : Ptr) (argument : τ) : Except Fault (Int × τ) :=
  walk .right s action turns element argument

def treeWalk (turns : Nat) (tree : RbTree κ) (action : RbtreeWalkAction κ τ) (argument : τ) :
    RbtreeWalkType -> Except Fault (Int × τ)
  | .LEFT_ROOT_RIGHT =>
      rbtreeWalkLeftRootRight tree.nodes action turns tree.nodes.root argument
  | .RIGHT_ROOT_LEFT =>
      rbtreeWalkRightRootLeft tree.nodes action turns tree.nodes.root argument

end RBTree
end MyLibs
