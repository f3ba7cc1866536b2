import Mathlib.Logic.Function.Basic
import MyLibs.Foundation.TreeContext
import MyLibs.Platform

/-!
# Elements, links and fixups of `my_rbtree.c`

Elements live in a heap of addresses, next to the sentinel `null_element`, and
refer to each other by address. A pointer to a link, of which `parents` keeps a
stack, is a `Link`. Operations run in `Except Fault`: they stop where the source
would follow a pointer to no element or use an index outside of `parents`, and
when a loop that moves along `parents` takes more turns than that has places.

The fixups treat left and right alike, so both branches of the source are one
function of a side.
-/

namespace MyLibs
namespace RBTree

open Foundation

def MAX_rbtree_HEIGHT : Nat := 64

inductive Fault where
  | badPointer
  | badIndex
  | noFuel
deriving DecidableEq

theorem ok_of_bind {α β : Type _} {x : Except Fault α} {f : α -> Except Fault β} {b : β}
    (h : (x >>= f) = .ok b) : exists a, x = .ok a ∧ f a = .ok b := by
  cases x with
  | error fault => cases h
  | ok a => exact ⟨a, rfl, h⟩

variable {κ : Type _}

/-- `rbtree_element`, and the key that `ELEMENT_KEY` leads to. The sentinel has
no room for one. -/
structure Element (κ : Type _) where
  left : Ptr
  right : Ptr
  count : Nat
  colour : Colour
  key : Option κ

/-- `null_element` as `rbtree_init` leaves it. -/
def nullElement : Element κ where
  left := NULL
  right := NULL
  count := 0
  colour := .black
  key := none

def Element.child (e : Element κ) : Dir -> Ptr
  | .left => e.left
  | .right => e.right

def Element.setChild (e : Element κ) (d : Dir) (p : Ptr) : Element κ :=
  match d with
  | .left => { e with left := p }
  | .right => { e with right := p }

/-- An address of type `rbtree_element**`: that of `tree->root` or of a child of
an element. -/
inductive Link where
  | root
  | child (d : Dir) (element : Ptr)
deriving DecidableEq

/-- The part of an `rbtree` that holds its elements together. -/
structure Nodes (κ : Type _) where
  root : Ptr
  /-- The address of `null_element`. -/
  nullElement : Ptr
  parents : Nat -> Link
  heap : Ptr -> Option (Element κ)

/-!
## Reading and writing
-/

namespace Nodes

def element (s : Nodes κ) (p : Ptr) : Except Fault (Element κ) :=
  match s.heap p with
  | some e => .ok e
  | none => .error .badPointer

/-- `ELEMENT_KEY(tree, element)` -/
def elementKey (s : Nodes κ) (p : Ptr) : Except Fault κ := do
  let e <- s.element p
  match e.key with
  | some key => .ok key
  | none => .error .badPointer

def modify (s : Nodes κ) (p : Ptr) (f : Element κ -> Element κ) : Except Fault (Nodes κ) := do
  let e <- s.element p
  .ok { s with heap := Function.update s.heap p (some (f e)) }

def setColour (s : Nodes κ) (p : Ptr) (c : Colour) : Except Fault (Nodes κ) :=
  s.modify p fun e => { e with colour := c }

/-- `*link` -/
def read (s : Nodes κ) : Link -> Except Fault Ptr
  | .root => .ok s.root
  | .child d p => do
      let e <- s.element p
      .ok (e.child d)

/-- `*link = p;` -/
def write (s : Nodes κ) (link : Link) (p : Ptr) : Except Fault (Nodes κ) :=
  match link with
  | .root => .ok { s with root := p }
  | .child d q => s.modify q fun e => e.setChild d p

/-- `parents[i]` -/
def parentAt (s : Nodes κ) (i : Nat) : Except Fault Link :=
  if i < MAX_rbtree_HEIGHT then .ok (s.parents i) else .error .badIndex

/-- `parent[-k]`, where `parent` points to place `i` of `parents`. -/
def parentAbove (s : Nodes κ) (i k : Nat) : Except Fault Link :=
  if k <= i then s.parentAt (i - k) else .error .badIndex

/-- `parents[i] = link;` -/
def setParent (s : Nodes κ) (i : Nat) (link : Link) : Except Fault (Nodes κ) :=
  if i < MAX_rbtree_HEIGHT then
    .ok { s with parents := Function.update s.parents i link }
  else
    .error .badIndex

end Nodes

/-!
## Rotations
-/

/-- `leaf` goes down to side `d`. -/
def rotate (d : Dir) (s : Nodes κ) (parent : Link) (leaf : Ptr) : Except Fault (Nodes κ) := do
  let leafElement <- s.element leaf
  let y := leafElement.child d.other
  let yElement <- s.element y
  let s <- s.modify leaf fun e => e.setChild d.other (yElement.child d)
  let s <- s.write parent y
  s.modify y fun e => e.setChild d leaf

def rbtreeLeftRotate (s : Nodes κ) (parent : Link) (leaf : Ptr) : Except Fault (Nodes κ) :=
  rotate .left s parent leaf

def rbtreeRightRotate (s : Nodes κ) (parent : Link) (leaf : Ptr) : Except Fault (Nodes κ) :=
  rotate .right s parent leaf

/-!
## Insertion fixup
-/

/-- `if (leaf == par->right) { rbtree_left_rotate(parent[-1], par); par = leaf; }`
and its mirror image: the nodes and `par` after. -/
def turnOutward (d : Dir) (s : Nodes κ) (parent : Link) (leaf par : Ptr) :
    Except Fault (Nodes κ × Ptr) := do
  let parElement <- s.element par
  if leaf = parElement.child d.other then
    let s <- rotate d s parent par
    .ok (s, leaf)
  else
    .ok (s, par)

/-- The loop of `rb_insert`; `parent` is the place of `parent[0]`. -/
def rbInsertLoop : Nat -> Nodes κ -> Nat -> Ptr -> Except Fault (Nodes κ)
  | 0, _, _, _ => .error .noFuel
  | fuel + 1, s, parent, leaf =>
      if leaf = s.root then
        .ok s
      else do
        let parLink <- s.parentAbove parent 1
        let par <- s.read parLink
        let parElement <- s.element par
        if parElement.colour = .black then
          .ok s
        else
          let par2Link <- s.parentAbove parent 2
          let par2 <- s.read par2Link
          let par2Element <- s.element par2
          let d := if par = par2Element.left then Dir.left else Dir.right
          let y := par2Element.child d.other
          let yElement <- s.element y
          if yElement.colour = .red then
            let s <- s.setColour par .black
            let s <- s.setColour y .black
            let s <- s.setColour par2 .red
            rbInsertLoop fuel s (parent - 2) par2
          else
            let (s, par) <- turnOutward d s parLink leaf par
            let s <- s.setColour par .black
            let s <- s.setColour par2 .red
            rotate d.other s par2Link par2

def rbInsert (s : Nodes κ) (parent : Nat) (leaf : Ptr) : Except Fault (Nodes κ) := do
  let s <- s.setColour leaf .red
  let s <- rbInsertLoop (MAX_rbtree_HEIGHT + 1) s parent leaf
  s.setColour s.root .black

/-!
## Deletion fixup
-/

/-- The block for a red sibling: the nodes, the place of `parent[0]` and `w`
after. -/
def redSibling (d : Dir) (s : Nodes κ) (parent : Nat) (par w : Ptr) :
    Except Fault (Nodes κ × Nat × Ptr) := do
  let wElement <- s.element w
  if wElement.colour = .red then
    let s <- s.setColour w .black
    let s <- s.setColour par .red
    let link <- s.parentAbove parent 1
    let s <- rotate d s link par
    let s <- s.setParent parent (.child d w)
    let s <- s.setParent (parent + 1) (.child d par)
    let parElement <- s.element par
    .ok (s, parent + 1, parElement.child d.other)
  else
    .ok (s, parent, w)

/-- `w->left->colour == BLACK && w->right->colour == BLACK`, the child on side
`d` first. -/
def bothBlack (d : Dir) (s : Nodes κ) (w : Ptr) : Except Fault Bool := do
  let wElement <- s.element w
  let near <- s.element (wElement.child d)
  if near.colour = .black then
    let far <- s.element (wElement.child d.other)
    .ok (decide (far.colour = .black))
  else
    .ok false

/-- The block for a black outer nephew: the nodes and `w` after. -/
def innerNephew (d : Dir) (s : Nodes κ) (par w : Ptr) : Except Fault (Nodes κ × Ptr) := do
  let wElement <- s.element w
  let far <- s.element (wElement.child d.other)
  if far.colour = .black then
    let s <- s.setColour (wElement.child d) .black
    let s <- s.setColour w .red
    let s <- rotate d.other s (.child d.other par) w
    let parElement <- s.element par
    .ok (s, parElement.child d.other)
  else
    .ok (s, w)

def outerNephew (d : Dir) (s : Nodes κ) (parent : Nat) (par w : Ptr) :
    Except Fault (Nodes κ) := do
  let (s, w) <- innerNephew d s par w
  let parElement <- s.element par
  let s <- s.setColour w parElement.colour
  let s <- s.setColour par .black
  let wElement <- s.element w
  let s <- s.setColour (wElement.child d.other) .black
  let link <- s.parentAbove parent 1
  rotate d s link par

/-- The loop of `rb_delete_fixup`: the nodes and `x` after. -/
def rbDeleteFixupLoop : Nat -> Nodes κ -> Nat -> Ptr -> Except Fault (Nodes κ × Ptr)
  | 0, _, _, _ => .error .noFuel
  | fuel + 1, s, parent, x =>
      if x = s.root then
        .ok (s, x)
      else do
        let xElement <- s.element x
        if xElement.colour = .red then
          .ok (s, x)
        else
          let link <- s.parentAbove parent 1
          let par <- s.read link
          let parElement <- s.element par
          let d := if x = parElement.left then Dir.left else Dir.right
          let (s, parent, w) <- redSibling d s parent par (parElement.child d.other)
          let black <- bothBlack d s w
          if black then
            let s <- s.setColour w .red
            rbDeleteFixupLoop fuel s (parent - 1) par
          else
            let s <- outerNephew d s parent par w
            .ok (s, s.root)

def rbDeleteFixup (s : Nodes κ) (parent : Nat) : Except Fault (Nodes κ) := do
  let link <- s.parentAt parent
  let x <- s.read link
  let (s, x) <- rbDeleteFixupLoop (MAX_rbtree_HEIGHT + 1) s parent x
  s.setColour x .black

end RBTree
end MyLibs
