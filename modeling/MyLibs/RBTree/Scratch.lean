import MyLibs.Foundation.Matches
import MyLibs.RBTree.Model

/-!
# The stack of parents

Every call writes the part of `parents` that it reads, so what an earlier call has
left there does not matter.
-/

namespace MyLibs
namespace RBTree

open Foundation

variable {κ : Type _} {s s' : Nodes κ} {n m parent : Nat} {p q : Ptr} {d : Dir}

structure Agree (n : Nat) (s s' : Nodes κ) : Prop where
  root_eq : s'.root = s.root
  nullElement_eq : s'.nullElement = s.nullElement
  heap_eq : s'.heap = s.heap
  parents_eq : forall i, i < n -> s'.parents i = s.parents i

namespace Agree

theorem mono (h : Agree n s s') (hle : m <= n) : Agree m s s' where
  root_eq := h.root_eq
  nullElement_eq := h.nullElement_eq
  heap_eq := h.heap_eq
  parents_eq := fun i hi => h.parents_eq i (Nat.lt_of_lt_of_le hi hle)

/-!
## Reading and writing
-/

theorem element (h : Agree n s s') (p : Ptr) : s'.element p = s.element p := by
  rw [Nodes.element, h.heap_eq]
  rfl

theorem elementKey (h : Agree n s s') (p : Ptr) : s'.elementKey p = s.elementKey p := by
  rw [Nodes.elementKey, h.element]
  rfl

theorem read (h : Agree n s s') (link : Link) : s'.read link = s.read link := by
  cases link with
  | root => exact congrArg Except.ok h.root_eq
  | child d p =>
      show (s'.element p >>= _) = (s.element p >>= _)
      rw [h.element]

theorem parentAt (h : Agree n s s') (hn : m < n) : s'.parentAt m = s.parentAt m := by
  rw [Nodes.parentAt, h.parents_eq m hn]
  rfl

theorem parentAbove (h : Agree n s s') (hn : m < n) (k : Nat) :
    s'.parentAbove m k = s.parentAbove m k := by
  rw [Nodes.parentAbove, h.parentAt (Nat.lt_of_le_of_lt (Nat.sub_le m k) hn)]
  rfl

theorem modify (h : Agree n s s') (p : Ptr) (f : Element κ -> Element κ) :
    Matches (Agree n) (s.modify p f) (s'.modify p f) := by
  rw [Nodes.modify, Nodes.modify, h.element, h.heap_eq]
  refine Matches.bind_same fun e => .ok ?_
  exact ⟨h.root_eq, h.nullElement_eq, rfl, h.parents_eq⟩

theorem setColour (h : Agree n s s') (p : Ptr) (c : Colour) :
    Matches (Agree n) (s.setColour p c) (s'.setColour p c) :=
  h.modify p _

theorem write (h : Agree n s s') (link : Link) (p : Ptr) :
    Matches (Agree n) (s.write link p) (s'.write link p) := by
  cases link with
  | root => exact .ok ⟨rfl, h.nullElement_eq, h.heap_eq, h.parents_eq⟩
  | child d q => exact h.modify q _

theorem setParent (h : Agree n s s') (hn : m <= n) (link : Link) :
    Matches (Agree (max n (m + 1))) (s.setParent m link) (s'.setParent m link) := by
  rw [Nodes.setParent, Nodes.setParent]
  split
  next =>
    refine .ok ⟨h.root_eq, h.nullElement_eq, h.heap_eq, fun i hi => ?_⟩
    show Function.update s'.parents m link i = Function.update s.parents m link i
    rcases eq_or_ne i m with heq | hne
    · rw [heq, Function.update_self, Function.update_self]
    · rw [Function.update_of_ne hne, Function.update_of_ne hne]
      exact h.parents_eq i (by omega)
  next => exact .error _

theorem setParent_of_lt (h : Agree n s s') (hn : m < n) (link : Link) :
    Matches (Agree n) (s.setParent m link) (s'.setParent m link) :=
  (h.setParent (Nat.le_of_lt hn) link).mono fun _ _ h => h.mono (Nat.le_max_left ..)

theorem setParent_next (h : Agree (m + 1) s s') (link : Link) :
    Matches (Agree (m + 1 + 1)) (s.setParent (m + 1) link) (s'.setParent (m + 1) link) :=
  (h.setParent (Nat.le_refl _) link).mono fun _ _ h => h.mono (Nat.le_max_right ..)

/-!
## Insertion
-/

theorem rotate (h : Agree n s s') (d : Dir) (link : Link) (leaf : Ptr) :
    Matches (Agree n) (rotate d s link leaf) (rotate d s' link leaf) := by
  rw [RBTree.rotate, RBTree.rotate, h.element]
  refine Matches.bind_same fun leafElement => ?_
  simp only [h.element]
  refine Matches.bind_same fun yElement => ?_
  refine (h.modify leaf _).bind fun s s' h => ?_
  refine (h.write link _).bind fun s s' h => ?_
  exact h.modify _ _

def With {α : Type _} (n : Nat) (x y : Nodes κ × α) : Prop :=
  y.2 = x.2 ∧ Agree n x.1 y.1

theorem With.bind {α β γ : Type _} {S : β -> γ -> Prop} {x y : Except Fault (Nodes κ × α)}
    {f : Nodes κ × α -> Except Fault β} {g : Nodes κ × α -> Except Fault γ}
    (h : Matches (With n) x y)
    (hnext : forall s s' a, Agree n s s' -> Matches S (f (s, a)) (g (s', a))) :
    Matches S (x >>= f) (y >>= g) := by
  refine Matches.bind h fun a b hab => ?_
  rcases a with ⟨s, a⟩
  rcases b with ⟨s', a'⟩
  rcases hab with ⟨rfl, hagree⟩
  exact hnext s s' _ hagree

theorem turnOutward (h : Agree n s s') (d : Dir) (link : Link) (leaf par : Ptr) :
    Matches (With n) (turnOutward d s link leaf par) (turnOutward d s' link leaf par) := by
  rw [RBTree.turnOutward, RBTree.turnOutward, h.element]
  refine Matches.bind_same fun parElement => ?_
  split
  next => exact (h.rotate d link par).bind fun s s' h => .ok ⟨rfl, h⟩
  next => exact .ok ⟨rfl, h⟩

theorem rbInsertLoop {fuel : Nat} {leaf : Ptr} (h : Agree (parent + 1) s s') :
    Matches (Agree 0) (rbInsertLoop fuel s parent leaf) (rbInsertLoop fuel s' parent leaf) := by
  induction fuel generalizing s s' parent leaf with
  | zero => exact .error _
  | succ fuel ih =>
      rw [RBTree.rbInsertLoop, RBTree.rbInsertLoop, h.root_eq]
      split
      next => exact .ok (h.mono (Nat.zero_le _))
      next =>
        rw [h.parentAbove (Nat.lt_succ_self _)]
        refine Matches.bind_same fun parLink => ?_
        rw [h.read]
        refine Matches.bind_same fun par => ?_
        rw [h.element]
        refine Matches.bind_same fun parElement => ?_
        split
        next => exact .ok (h.mono (Nat.zero_le _))
        next =>
          rw [h.parentAbove (Nat.lt_succ_self _)]
          refine Matches.bind_same fun par2Link => ?_
          rw [h.read]
          refine Matches.bind_same fun par2 => ?_
          rw [h.element]
          refine Matches.bind_same fun par2Element => ?_
          simp only [h.element]
          refine Matches.bind_same fun yElement => ?_
          split
          next =>
            refine (h.setColour par .black).bind fun s s' h => ?_
            refine (h.setColour _ .black).bind fun s s' h => ?_
            refine (h.setColour par2 .red).bind fun s s' h => ?_
            exact ih (h.mono (by omega))
          next =>
            refine With.bind (h.turnOutward _ parLink leaf par) fun s s' par h => ?_
            refine (h.setColour par .black).bind fun s s' h => ?_
            refine (h.setColour par2 .red).bind fun s s' h => ?_
            exact (h.rotate _ par2Link par2).mono fun _ _ h => h.mono (Nat.zero_le _)

theorem rbInsert {leaf : Ptr} (h : Agree (parent + 1) s s') :
    Matches (Agree 0) (rbInsert s parent leaf) (rbInsert s' parent leaf) := by
  rw [RBTree.rbInsert, RBTree.rbInsert]
  refine (h.setColour leaf .red).bind fun s s' h => ?_
  refine h.rbInsertLoop.bind fun s s' h => ?_
  rw [h.root_eq]
  exact h.setColour s.root .black

theorem withHeap (h : Agree n s s') (heap : Ptr -> Option (Element κ)) :
    Agree n { s with heap := heap } { s' with heap := heap } :=
  ⟨h.root_eq, h.nullElement_eq, rfl, h.parents_eq⟩

theorem linkElement {block : Ptr} {key : κ} (h : Agree (parent + 1) s s') :
    Matches (Agree 0) (linkElement s parent block key) (linkElement s' parent block key) := by
  rcases s with ⟨root, null, parents, heap⟩
  rcases s' with ⟨root', null', parents', heap'⟩
  cases h.root_eq
  cases h.nullElement_eq
  cases h.heap_eq
  rw [RBTree.linkElement, RBTree.linkElement, h.parentAt (Nat.lt_succ_self _)]
  refine Matches.bind_same fun link => ?_
  exact ((h.withHeap _).write link block).bind fun s s' h => h.rbInsert

def AtPlace {α : Type _} (x y : Nodes κ × Nat × α) : Prop :=
  y.2 = x.2 ∧ Agree (x.2.1 + 1) x.1 y.1

theorem AtPlace.bind {α β γ : Type _} {S : β -> γ -> Prop}
    {x y : Except Fault (Nodes κ × Nat × α)} {f : Nodes κ × Nat × α -> Except Fault β}
    {g : Nodes κ × Nat × α -> Except Fault γ} (h : Matches AtPlace x y)
    (hnext : forall s s' parent a, Agree (parent + 1) s s' ->
      Matches S (f (s, parent, a)) (g (s', parent, a))) :
    Matches S (x >>= f) (y >>= g) := by
  refine Matches.bind h fun a b hab => ?_
  rcases a with ⟨s, parent, a⟩
  rcases b with ⟨s', place⟩
  rcases hab with ⟨rfl, hagree⟩
  exact hnext s s' parent a hagree

theorem descend {compare : κ -> κ -> Int} {key : κ} {fuel : Nat} {element : Ptr}
    (h : Agree (parent + 1) s s') : Matches AtPlace (descend compare key fuel s parent element)
      (descend compare key fuel s' parent element) := by
  induction fuel generalizing s s' parent element with
  | zero => exact .error _
  | succ fuel ih =>
      rw [RBTree.descend, RBTree.descend, h.nullElement_eq]
      split
      next => exact .ok ⟨rfl, h⟩
      next =>
        rw [h.elementKey]
        refine Matches.bind_same fun elementKey => ?_
        dsimp only
        split
        next => exact .ok ⟨rfl, h⟩
        next =>
          refine (h.setParent_next _).bind fun s s' h => ?_
          rw [h.element]
          exact Matches.bind_same fun e => ih h

/-!
## Deletion
-/

theorem redSibling {par w : Ptr} (h : Agree (parent + 1) s s') :
    Matches AtPlace (redSibling d s parent par w) (redSibling d s' parent par w) := by
  rw [RBTree.redSibling, RBTree.redSibling, h.element]
  refine Matches.bind_same fun wElement => ?_
  split
  next =>
    refine (h.setColour w .black).bind fun s s' h => ?_
    refine (h.setColour par .red).bind fun s s' h => ?_
    rw [h.parentAbove (Nat.lt_succ_self _)]
    refine Matches.bind_same fun link => ?_
    refine (h.rotate d link par).bind fun s s' h => ?_
    refine (h.setParent_of_lt (Nat.lt_succ_self _) _).bind fun s s' h => ?_
    refine (h.setParent_next _).bind fun s s' h => ?_
    rw [h.element]
    exact Matches.bind_same fun parElement => .ok ⟨rfl, h⟩
  next => exact .ok ⟨rfl, h⟩

theorem bothBlack (h : Agree n s s') (d : Dir) (w : Ptr) :
    bothBlack d s' w = bothBlack d s w := by
  rw [RBTree.bothBlack, RBTree.bothBlack]
  simp only [h.element]

theorem innerNephew (h : Agree n s s') (d : Dir) (par w : Ptr) :
    Matches (With n) (innerNephew d s par w) (innerNephew d s' par w) := by
  rw [RBTree.innerNephew, RBTree.innerNephew, h.element]
  refine Matches.bind_same fun wElement => ?_
  rw [h.element]
  refine Matches.bind_same fun far => ?_
  split
  next =>
    refine (h.setColour _ .black).bind fun s s' h => ?_
    refine (h.setColour w .red).bind fun s s' h => ?_
    refine (h.rotate d.other _ w).bind fun s s' h => ?_
    rw [h.element]
    exact Matches.bind_same fun parElement => .ok ⟨rfl, h⟩
  next => exact .ok ⟨rfl, h⟩

theorem outerNephew {par w : Ptr} (h : Agree (parent + 1) s s') :
    Matches (Agree 0) (outerNephew d s parent par w) (outerNephew d s' parent par w) := by
  rw [RBTree.outerNephew, RBTree.outerNephew]
  refine With.bind (h.innerNephew d par w) fun s s' w h => ?_
  dsimp only
  rw [h.element]
  refine Matches.bind_same fun parElement => ?_
  refine (h.setColour w _).bind fun s s' h => ?_
  refine (h.setColour par .black).bind fun s s' h => ?_
  rw [h.element]
  refine Matches.bind_same fun wElement => ?_
  refine (h.setColour _ .black).bind fun s s' h => ?_
  rw [h.parentAbove (Nat.lt_succ_self _)]
  refine Matches.bind_same fun link => ?_
  exact (h.rotate d link par).mono fun _ _ h => h.mono (Nat.zero_le _)

theorem rbDeleteFixupLoop {fuel : Nat} {x : Ptr} (h : Agree (parent + 1) s s') :
    Matches (With 0) (rbDeleteFixupLoop fuel s parent x) (rbDeleteFixupLoop fuel s' parent x) := by
  induction fuel generalizing s s' parent x with
  | zero => exact .error _
  | succ fuel ih =>
      rw [RBTree.rbDeleteFixupLoop, RBTree.rbDeleteFixupLoop, h.root_eq]
      split
      next => exact .ok ⟨rfl, h.mono (Nat.zero_le _)⟩
      next =>
        rw [h.element]
        refine Matches.bind_same fun xElement => ?_
        split
        next => exact .ok ⟨rfl, h.mono (Nat.zero_le _)⟩
        next =>
          rw [h.parentAbove (Nat.lt_succ_self _)]
          refine Matches.bind_same fun link => ?_
          rw [h.read]
          refine Matches.bind_same fun par => ?_
          rw [h.element]
          refine Matches.bind_same fun parElement => ?_
          refine AtPlace.bind h.redSibling fun s s' parent w h => ?_
          simp only [h.bothBlack]
          refine Matches.bind_same fun black => ?_
          split
          next =>
            refine (h.setColour w .red).bind fun s s' h => ?_
            exact ih (h.mono (by omega))
          next =>
            refine h.outerNephew.bind fun s s' h => ?_
            exact .ok ⟨h.root_eq, h⟩

theorem rbDeleteFixup (h : Agree (parent + 1) s s') :
    Matches (Agree 0) (rbDeleteFixup s parent) (rbDeleteFixup s' parent) := by
  rw [RBTree.rbDeleteFixup, RBTree.rbDeleteFixup, h.parentAt (Nat.lt_succ_self _)]
  refine Matches.bind_same fun link => ?_
  rw [h.read]
  refine Matches.bind_same fun x => ?_
  exact With.bind h.rbDeleteFixupLoop fun s s' x h => h.setColour x .black

theorem leftmost {fuel : Nat} {nod : Ptr} (h : Agree (parent + 1) s s') :
    Matches (fun x y => parent <= x.2.1 ∧ AtPlace x y) (leftmost fuel s parent nod)
      (leftmost fuel s' parent nod) := by
  induction fuel generalizing s s' parent nod with
  | zero => exact .error _
  | succ fuel ih =>
      rw [RBTree.leftmost, RBTree.leftmost, h.element]
      refine Matches.bind_same fun e => ?_
      rw [h.nullElement_eq]
      split
      next => exact .ok ⟨Nat.le_refl _, rfl, h⟩
      next =>
        refine (h.setParent_next _).bind fun s s' h => ?_
        exact (ih h).mono fun _ _ hlower => ⟨Nat.le_of_succ_le hlower.left, hlower.right⟩

theorem takePlace {orgParent : Nat} {element nod : Ptr} (h : Agree (parent + 1) s s')
    (hparent : orgParent < parent) :
    Matches (With (parent + 1)) (takePlace s orgParent parent element nod)
      (takePlace s' orgParent parent element nod) := by
  rw [RBTree.takePlace, RBTree.takePlace, h.element]
  refine Matches.bind_same fun nodElement => ?_
  rw [h.parentAt (Nat.lt_succ_self _)]
  refine Matches.bind_same fun link => ?_
  refine (h.write link _).bind fun s s' h => ?_
  rw [h.parentAt (by omega)]
  refine Matches.bind_same fun orgLink => ?_
  refine (h.write orgLink nod).bind fun s s' h => ?_
  refine (h.setParent_of_lt (by omega) _).bind fun s s' h => ?_
  rw [h.element]
  refine Matches.bind_same fun e => ?_
  exact (h.modify nod _).bind fun s s' h => .ok ⟨rfl, h⟩

theorem unlinkSuccessor {element : Ptr} (h : Agree (parent + 1) s s') :
    Matches AtPlace (unlinkSuccessor s parent element) (unlinkSuccessor s' parent element) := by
  rw [RBTree.unlinkSuccessor, RBTree.unlinkSuccessor, h.element]
  refine Matches.bind_same fun e => ?_
  refine (h.setParent_next _).bind fun s s' h => ?_
  refine h.leftmost.bind fun x y hxy => ?_
  rcases x with ⟨s, lower, nod⟩
  rcases y with ⟨s', place⟩
  rcases hxy with ⟨hlower, rfl, h⟩
  refine With.bind (Agree.takePlace h hlower) fun s s' removeColour h => ?_
  exact .ok ⟨rfl, h⟩

theorem unlink {element : Ptr} (h : Agree (parent + 1) s s') :
    Matches AtPlace (unlink s parent element) (unlink s' parent element) := by
  rw [RBTree.unlink, RBTree.unlink, h.element, h.nullElement_eq]
  refine Matches.bind_same fun e => ?_
  split
  next =>
    rw [h.parentAt (Nat.lt_succ_self _)]
    refine Matches.bind_same fun link => ?_
    exact (h.write link e.right).bind fun s s' h => .ok ⟨rfl, h⟩
  next =>
    split
    next =>
      rw [h.parentAt (Nat.lt_succ_self _)]
      refine Matches.bind_same fun link => ?_
      exact (h.write link e.left).bind fun s s' h => .ok ⟨rfl, h⟩
    next => exact h.unlinkSuccessor

theorem takeOut {element : Ptr} (h : Agree (parent + 1) s s') :
    Matches (Agree 0) (takeOut s parent element) (takeOut s' parent element) := by
  rw [RBTree.takeOut, RBTree.takeOut]
  refine AtPlace.bind h.unlink fun s s' parent removeColour h => ?_
  dsimp only
  rw [RBTree.fixupIfBlack, RBTree.fixupIfBlack]
  split
  next => exact h.rbDeleteFixup
  next => exact .ok (h.mono (Nat.zero_le _))

end Agree

/-!
## Whole trees
-/

variable {tree tree' : RbTree κ} {key : κ} {keySize : Nat} {malloc : Malloc κ}

def Alike (n : Nat) (tree tree' : RbTree κ) : Prop :=
  exists s, tree' = { tree with nodes := s } ∧ Agree n tree.nodes s

def SameState (tree tree' : RbTree κ) : Prop :=
  Alike 0 tree tree'

def SameResult {α : Type _} (x y : α × RbTree κ) : Prop :=
  y.1 = x.1 ∧ SameState x.2 y.2

theorem SameState.refl (tree : RbTree κ) : SameState tree tree :=
  ⟨tree.nodes, rfl, rfl, rfl, rfl, fun _ hi => absurd hi (Nat.not_lt_zero _)⟩

theorem SameState.logged (h : SameState tree tree') (set : Bool) (event : Event κ) :
    SameState (tree.logged set event) (tree'.logged set event) := by
  rcases h with ⟨s, rfl, h⟩
  cases set with
  | true => exact ⟨s, rfl, h⟩
  | false => exact ⟨s, rfl, h⟩

theorem SameState.release (h : SameState tree tree') (element : Ptr) :
    SameState (tree.release element) (tree'.release element) := by
  rcases h with ⟨s, rfl, h⟩
  refine ⟨_, rfl, ?_⟩
  dsimp only [RbTree.release]
  rw [h.heap_eq]
  exact h.withHeap _

theorem Agree.alike {s s' : Nodes κ} (h : Agree n s s') (tree : RbTree κ) :
    Alike n { tree with nodes := s } { tree with nodes := s' } :=
  ⟨s', rfl, h⟩

theorem findPlace_alike (key : κ) (h : SameState tree tree') :
    Matches Agree.AtPlace (findPlace tree key) (findPlace tree' key) := by
  rcases h with ⟨s, rfl, h⟩
  rw [findPlace, findPlace]
  refine (h.setParent (Nat.le_refl 0) .root).bind fun s s' h => ?_
  dsimp only
  rw [h.root_eq]
  exact h.descend

theorem rbtreeUninitElement_alike {fuel : Nat} {element : Ptr} (h : SameState tree tree') :
    Matches SameState (rbtreeUninitElement fuel tree element)
      (rbtreeUninitElement fuel tree' element) := by
  induction fuel generalizing tree tree' element with
  | zero => exact .error _
  | succ fuel ih =>
      rcases h with ⟨s, rfl, h⟩
      rw [rbtreeUninitElement, rbtreeUninitElement]
      dsimp only
      rw [h.nullElement_eq]
      split
      next => exact .ok ⟨s, rfl, h⟩
      next =>
        rw [h.element]
        refine Matches.bind_same fun e => ?_
        refine (ih ⟨s, rfl, h⟩).bind fun tree tree' h => ?_
        rcases h with ⟨s, rfl, h⟩
        dsimp only
        rw [h.elementKey]
        refine Matches.bind_same fun key => ?_
        have hlogged : SameState (tree.logged tree.free (.freeFree key))
            (RbTree.logged { tree with nodes := s } tree.free (.freeFree key)) :=
          SameState.logged ⟨s, rfl, h⟩ tree.free (.freeFree key)
        refine (ih hlogged).bind fun tree tree' h => ?_
        rcases h with ⟨s, rfl, h⟩
        dsimp only
        split
        next => exact .ok (SameState.release ⟨s, rfl, h⟩ element)
        next => exact .ok ⟨s, rfl, h⟩

theorem SameState.freeMemRoot (h : SameState tree tree') :
    SameState tree.freeMemRoot tree'.freeMemRoot := by
  rcases h with ⟨s, rfl, h⟩
  exact ⟨_, rfl, h.root_eq, h.nullElement_eq, congrArg tree.freeRoot h.heap_eq, h.parents_eq⟩

theorem freeInRoot_alike (h : SameState tree tree') :
    Matches SameState (freeInRoot tree) (freeInRoot tree') := by
  rcases h with ⟨s, rfl, h⟩
  rw [freeInRoot, freeInRoot]
  dsimp only
  split
  next =>
    have hlogged : SameState (tree.logged (decide (tree.memoryLimit ≠ 0)) .freeInit)
        (RbTree.logged { tree with nodes := s } (decide (tree.memoryLimit ≠ 0)) .freeInit) :=
      SameState.logged ⟨s, rfl, h⟩ _ _
    generalize tree.logged (decide (tree.memoryLimit ≠ 0)) .freeInit = start at hlogged ⊢
    rcases hlogged with ⟨s', hlogged, hstart⟩
    rw [hlogged]
    dsimp only
    rw [hstart.root_eq]
    refine (rbtreeUninitElement_alike ⟨s', rfl, hstart⟩).bind fun tree tree' h => ?_
    exact .ok (h.logged _ .freeUninit).freeMemRoot
  next => exact .ok (SameState.freeMemRoot ⟨s, rfl, h⟩)

theorem rbtreeReset_alike (h : SameState tree tree') :
    Matches SameState (rbtreeReset tree) (rbtreeReset tree') := by
  have hfreed : Matches SameState (freeElements tree) (freeElements tree') := by
    rcases h with ⟨s, rfl, h⟩
    rw [freeElements, freeElements]
    dsimp only
    rw [h.root_eq]
    split
    next => exact .ok ⟨s, rfl, h⟩
    next =>
      split
      next => exact rbtreeUninitElement_alike ⟨s, rfl, h⟩
      next => exact freeInRoot_alike ⟨s, rfl, h⟩
  refine hfreed.bind fun tree tree' h => .ok ?_
  rcases h with ⟨s, rfl, h⟩
  exact ⟨_, rfl, h.nullElement_eq, h.nullElement_eq, h.heap_eq, h.parents_eq⟩

theorem insertElement_alike {place : Nat} (h : Alike (place + 1) tree tree') :
    Matches SameResult (insertElement malloc key tree place)
      (insertElement malloc key tree' place) := by
  rcases h with ⟨s, rfl, h⟩
  rw [insertElement, insertElement]
  dsimp only
  rw [h.heap_eq]
  split
  next => exact .ok ⟨rfl, s, rfl, h.mono (Nat.zero_le _)⟩
  next => exact h.linkElement.bind fun s s' h => .ok ⟨rfl, s', rfl, h⟩

theorem countElement_alike {element : Ptr} (h : Alike n tree tree') :
    Matches SameResult (countElement tree element) (countElement tree' element) := by
  rcases h with ⟨s, rfl, h⟩
  rw [countElement, countElement]
  dsimp only
  split
  next => exact .ok ⟨rfl, s, rfl, h.mono (Nat.zero_le _)⟩
  next =>
    exact (h.modify element _).bind fun s s' h => .ok ⟨rfl, s', rfl, h.mono (Nat.zero_le _)⟩

theorem limit_alike {place : Nat} {again : RbTree κ -> Except Fault (Ptr × RbTree κ)}
    (h : Alike (place + 1) tree tree')
    (hagain : forall tree tree', SameState tree tree' ->
        Matches SameResult (again tree) (again tree')) :
    Matches SameResult
      (if tree.overLimit then rbtreeReset tree >>= again
        else insertElement malloc key tree place)
      (if tree'.overLimit then rbtreeReset tree' >>= again
        else insertElement malloc key tree' place) := by
  have hover : tree'.overLimit = tree.overLimit := by
    rcases h with ⟨s, rfl, h⟩
    rfl
  rw [hover]
  split
  next =>
    rcases h with ⟨s, rfl, h⟩
    exact (rbtreeReset_alike ⟨s, rfl, h.mono (Nat.zero_le _)⟩).bind hagain
  next => exact insertElement_alike h

theorem rbtreeInsertWith_alike {fuel : Nat} (h : SameState tree tree') :
    Matches SameResult (rbtreeInsertWith malloc key keySize fuel tree)
      (rbtreeInsertWith malloc key keySize fuel tree') := by
  induction fuel generalizing tree tree' with
  | zero => exact .error _
  | succ fuel ih =>
      rw [rbtreeInsertWith, rbtreeInsertWith]
      have hplace := findPlace_alike key h
      rcases h with ⟨s, rfl, h⟩
      refine Agree.AtPlace.bind hplace fun s s' place element h => ?_
      dsimp only
      rw [h.nullElement_eq]
      split
      next =>
        have hcounted := h.alike { tree with
          allocated := sizet (tree.allocated + uint (sizeofElement + keySize + tree.size)) }
        exact limit_alike hcounted fun _ _ h => ih h
      next => exact countElement_alike (h.alike tree)

theorem dropElement_alike (element : Ptr) (keySize : Nat) (h : SameState tree tree') :
    Matches SameState (dropElement tree element keySize) (dropElement tree' element keySize) := by
  rcases h with ⟨s, rfl, h⟩
  rw [dropElement, dropElement]
  dsimp only
  rw [h.elementKey]
  refine Matches.bind_same fun elementKey => .ok ?_
  have hlogged : SameState (tree.logged tree.free (.freeFree elementKey))
      (RbTree.logged { tree with nodes := s } tree.free (.freeFree elementKey)) :=
    SameState.logged ⟨s, rfl, h⟩ _ _
  generalize tree.logged tree.free (.freeFree elementKey) = tree₁ at hlogged ⊢
  generalize RbTree.logged { tree with nodes := s } tree.free (.freeFree elementKey) = tree₂
    at hlogged ⊢
  rcases hlogged with ⟨s₁, rfl, h₁⟩
  have hcounted := h₁.alike { tree₁ with
    allocated := sizetSub tree₁.allocated (sizeofElement + tree₁.size + keySize) }
  rcases SameState.release hcounted element with ⟨s₂, hreleased, h₂⟩
  refine ⟨s₂, ?_, h₂⟩
  dsimp only at hreleased ⊢
  rw [hreleased]

theorem rbtreeDelete_alike (h : SameState tree tree') :
    Matches SameResult (rbtreeDelete tree key keySize) (rbtreeDelete tree' key keySize) := by
  rw [rbtreeDelete, rbtreeDelete]
  have hplace := findPlace_alike key h
  rcases h with ⟨s, rfl, h⟩
  dsimp only
  split
  next => exact .ok ⟨rfl, s, rfl, h⟩
  next =>
    refine Agree.AtPlace.bind hplace fun s s' place element h => ?_
    dsimp only
    rw [h.nullElement_eq]
    split
    next => exact .ok ⟨rfl, s', rfl, h.mono (Nat.zero_le _)⟩
    next =>
      refine h.takeOut.bind fun s s' h => ?_
      exact (dropElement_alike element keySize (h.alike tree)).bind fun tree tree' h => .ok ⟨rfl, h⟩

theorem rbtreeSearch_alike (h : SameState tree tree') :
    rbtreeSearch tree' key = rbtreeSearch tree key := by
  rcases h with ⟨s, rfl, h⟩
  have hloop : forall fuel element, searchLoop tree.compare key s fuel element =
      searchLoop tree.compare key tree.nodes fuel element := by
    intro fuel
    induction fuel with
    | zero => exact fun _ => rfl
    | succ fuel ih =>
        intro element
        rw [searchLoop, searchLoop, h.nullElement_eq, h.elementKey]
        simp only [h.element, ih]
  rw [rbtreeSearch, rbtreeSearch]
  dsimp only
  rw [hloop, h.root_eq]

end RBTree
end MyLibs
