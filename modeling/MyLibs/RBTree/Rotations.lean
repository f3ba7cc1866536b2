import MyLibs.Foundation.Costs
import MyLibs.RBTree.Nodes

/-!
# How often the fixups rotate

The fixups of `my_rbtree.c` again, with every rotation counted. The climb itself only
changes colours; a rotation ends it, except that the fixup of a deletion may rotate
once before it, below an element that it has made red.
-/

namespace MyLibs
namespace RBTree

open Foundation

variable {κ : Type _}

/-!
## The fixups with their rotations
-/

def rotateCosted (d : Dir) (s : Nodes κ) (parent : Link) (leaf : Ptr) : Costed (Nodes κ) :=
  (Costed.ends 1 ()).andThen fun _ => Costed.ofExcept (rotate d s parent leaf)

def turnOutwardCosted (d : Dir) (s : Nodes κ) (parent : Link) (leaf par : Ptr) :
    Costed (Nodes κ × Ptr) :=
  (Costed.ofExcept (s.element par)).andThen fun parElement =>
    if leaf = parElement.child d.other then
      (rotateCosted d s parent par).andThen fun s => .ends 0 (s, leaf)
    else
      .ends 0 (s, par)

def rbInsertLoopCosted : Nat -> Nodes κ -> Nat -> Ptr -> Costed (Nodes κ)
  | 0, _, _, _ => .fails
  | fuel + 1, s, parent, leaf =>
      if leaf = s.root then
        .ends 0 s
      else
        (Costed.ofExcept (s.parentAbove parent 1)).andThen fun parLink =>
        (Costed.ofExcept (s.read parLink)).andThen fun par =>
        (Costed.ofExcept (s.element par)).andThen fun parElement =>
        if parElement.colour = .black then
          .ends 0 s
        else
          (Costed.ofExcept (s.parentAbove parent 2)).andThen fun par2Link =>
          (Costed.ofExcept (s.read par2Link)).andThen fun par2 =>
          (Costed.ofExcept (s.element par2)).andThen fun par2Element =>
          let d := if par = par2Element.left then Dir.left else Dir.right
          let y := par2Element.child d.other
          (Costed.ofExcept (s.element y)).andThen fun yElement =>
          if yElement.colour = .red then
            (Costed.ofExcept (s.setColour par .black)).andThen fun s =>
            (Costed.ofExcept (s.setColour y .black)).andThen fun s =>
            (Costed.ofExcept (s.setColour par2 .red)).andThen fun s =>
            rbInsertLoopCosted fuel s (parent - 2) par2
          else
            (turnOutwardCosted d s parLink leaf par).andThen fun (s, par) =>
            (Costed.ofExcept (s.setColour par .black)).andThen fun s =>
            (Costed.ofExcept (s.setColour par2 .red)).andThen fun s =>
            rotateCosted d.other s par2Link par2

def rbInsertCosted (s : Nodes κ) (parent : Nat) (leaf : Ptr) : Costed (Nodes κ) :=
  (Costed.ofExcept (s.setColour leaf .red)).andThen fun s =>
  (rbInsertLoopCosted (MAX_rbtree_HEIGHT + 1) s parent leaf).andThen fun s =>
  Costed.ofExcept (s.setColour s.root .black)

def redSiblingCosted (d : Dir) (s : Nodes κ) (parent : Nat) (par w : Ptr) :
    Costed (Nodes κ × Nat × Ptr) :=
  (Costed.ofExcept (s.element w)).andThen fun wElement =>
  if wElement.colour = .red then
    (Costed.ofExcept (s.setColour w .black)).andThen fun s =>
    (Costed.ofExcept (s.setColour par .red)).andThen fun s =>
    (Costed.ofExcept (s.parentAbove parent 1)).andThen fun link =>
    (rotateCosted d s link par).andThen fun s =>
    (Costed.ofExcept (s.setParent parent (.child d w))).andThen fun s =>
    (Costed.ofExcept (s.setParent (parent + 1) (.child d par))).andThen fun s =>
    (Costed.ofExcept (s.element par)).andThen fun parElement =>
    .ends 0 (s, parent + 1, parElement.child d.other)
  else
    .ends 0 (s, parent, w)

def innerNephewCosted (d : Dir) (s : Nodes κ) (par w : Ptr) : Costed (Nodes κ × Ptr) :=
  (Costed.ofExcept (s.element w)).andThen fun wElement =>
  (Costed.ofExcept (s.element (wElement.child d.other))).andThen fun far =>
  if far.colour = .black then
    (Costed.ofExcept (s.setColour (wElement.child d) .black)).andThen fun s =>
    (Costed.ofExcept (s.setColour w .red)).andThen fun s =>
    (rotateCosted d.other s (.child d.other par) w).andThen fun s =>
    (Costed.ofExcept (s.element par)).andThen fun parElement =>
    .ends 0 (s, parElement.child d.other)
  else
    .ends 0 (s, w)

def outerNephewCosted (d : Dir) (s : Nodes κ) (parent : Nat) (par w : Ptr) :
    Costed (Nodes κ) :=
  (innerNephewCosted d s par w).andThen fun (s, w) =>
  (Costed.ofExcept (s.element par)).andThen fun parElement =>
  (Costed.ofExcept (s.setColour w parElement.colour)).andThen fun s =>
  (Costed.ofExcept (s.setColour par .black)).andThen fun s =>
  (Costed.ofExcept (s.element w)).andThen fun wElement =>
  (Costed.ofExcept (s.setColour (wElement.child d.other) .black)).andThen fun s =>
  (Costed.ofExcept (s.parentAbove parent 1)).andThen fun link =>
  rotateCosted d s link par

def rbDeleteFixupLoopCosted : Nat -> Nodes κ -> Nat -> Ptr -> Costed (Nodes κ × Ptr)
  | 0, _, _, _ => .fails
  | fuel + 1, s, parent, x =>
      if x = s.root then
        .ends 0 (s, x)
      else
        (Costed.ofExcept (s.element x)).andThen fun xElement =>
        if xElement.colour = .red then
          .ends 0 (s, x)
        else
          (Costed.ofExcept (s.parentAbove parent 1)).andThen fun link =>
          (Costed.ofExcept (s.read link)).andThen fun par =>
          (Costed.ofExcept (s.element par)).andThen fun parElement =>
          let d := if x = parElement.left then Dir.left else Dir.right
          (redSiblingCosted d s parent par (parElement.child d.other)).andThen
            fun (s, parent, w) =>
          (Costed.ofExcept (bothBlack d s w)).andThen fun black =>
          if black then
            (Costed.ofExcept (s.setColour w .red)).andThen fun s =>
            rbDeleteFixupLoopCosted fuel s (parent - 1) par
          else
            (outerNephewCosted d s parent par w).andThen fun s =>
            .ends 0 (s, s.root)

def rbDeleteFixupCosted (s : Nodes κ) (parent : Nat) : Costed (Nodes κ) :=
  (Costed.ofExcept (s.parentAt parent)).andThen fun link =>
  (Costed.ofExcept (s.read link)).andThen fun x =>
  (rbDeleteFixupLoopCosted (MAX_rbtree_HEIGHT + 1) s parent x).andThen fun (s, x) =>
  Costed.ofExcept (s.setColour x .black)

/-!
## Counting changes no result
-/

theorem result_step {α β : Type _} (x : Except Fault α) {f : α -> Costed β}
    {g : α -> Except Fault β} (hf : forall a, (f a).result = (g a).toOption) :
    ((Costed.ofExcept x).andThen f).result = (x >>= g).toOption :=
  Costed.result_bind (Costed.result_ofExcept x) hf

theorem rotateCosted_result (d : Dir) (s : Nodes κ) (parent : Link) (leaf : Ptr) :
    (rotateCosted d s parent leaf).result = (rotate d s parent leaf).toOption := by
  rw [rotateCosted, Costed.result_andThen, Costed.result_ends, Option.bind_some,
    Costed.result_ofExcept]

theorem turnOutwardCosted_result (d : Dir) (s : Nodes κ) (parent : Link) (leaf par : Ptr) :
    (turnOutwardCosted d s parent leaf par).result =
      (turnOutward d s parent leaf par).toOption := by
  refine result_step _ fun parElement => ?_
  split
  · exact Costed.result_bind (rotateCosted_result ..) fun _ => rfl
  · rfl

theorem rbInsertLoopCosted_result (fuel : Nat) (s : Nodes κ) (parent : Nat) (leaf : Ptr) :
    (rbInsertLoopCosted fuel s parent leaf).result =
      (rbInsertLoop fuel s parent leaf).toOption := by
  induction fuel generalizing s parent leaf with
  | zero => rfl
  | succ fuel ih =>
      rw [rbInsertLoopCosted, rbInsertLoop]
      split
      · rfl
      refine result_step _ fun parLink => ?_
      refine result_step _ fun par => ?_
      refine result_step _ fun parElement => ?_
      split
      · rfl
      refine result_step _ fun par2Link => ?_
      refine result_step _ fun par2 => ?_
      refine result_step _ fun par2Element => ?_
      refine result_step _ fun yElement => ?_
      split
      · refine result_step _ fun s => ?_
        refine result_step _ fun s => ?_
        exact result_step _ fun s => ih ..
      · refine Costed.result_bind (turnOutwardCosted_result ..) fun turned => ?_
        refine result_step _ fun s => ?_
        exact result_step _ fun s => rotateCosted_result ..

theorem rbInsertCosted_result (s : Nodes κ) (parent : Nat) (leaf : Ptr) :
    (rbInsertCosted s parent leaf).result = (rbInsert s parent leaf).toOption := by
  refine result_step _ fun s => ?_
  exact Costed.result_bind (rbInsertLoopCosted_result ..) fun s => Costed.result_ofExcept _

theorem redSiblingCosted_result (d : Dir) (s : Nodes κ) (parent : Nat) (par w : Ptr) :
    (redSiblingCosted d s parent par w).result = (redSibling d s parent par w).toOption := by
  refine result_step _ fun wElement => ?_
  split
  · refine result_step _ fun s => ?_
    refine result_step _ fun s => ?_
    refine result_step _ fun link => ?_
    refine Costed.result_bind (rotateCosted_result ..) fun s => ?_
    refine result_step _ fun s => ?_
    refine result_step _ fun s => ?_
    exact result_step _ fun _ => rfl
  · rfl

theorem innerNephewCosted_result (d : Dir) (s : Nodes κ) (par w : Ptr) :
    (innerNephewCosted d s par w).result = (innerNephew d s par w).toOption := by
  refine result_step _ fun wElement => ?_
  refine result_step _ fun far => ?_
  split
  · refine result_step _ fun s => ?_
    refine result_step _ fun s => ?_
    refine Costed.result_bind (rotateCosted_result ..) fun s => ?_
    exact result_step _ fun _ => rfl
  · rfl

theorem outerNephewCosted_result (d : Dir) (s : Nodes κ) (parent : Nat) (par w : Ptr) :
    (outerNephewCosted d s parent par w).result = (outerNephew d s parent par w).toOption := by
  refine Costed.result_bind (innerNephewCosted_result ..) fun inner => ?_
  refine result_step _ fun parElement => ?_
  refine result_step _ fun s => ?_
  refine result_step _ fun s => ?_
  refine result_step _ fun wElement => ?_
  refine result_step _ fun s => ?_
  exact result_step _ fun link => rotateCosted_result ..

theorem rbDeleteFixupLoopCosted_result (fuel : Nat) (s : Nodes κ) (parent : Nat) (x : Ptr) :
    (rbDeleteFixupLoopCosted fuel s parent x).result =
      (rbDeleteFixupLoop fuel s parent x).toOption := by
  induction fuel generalizing s parent x with
  | zero => rfl
  | succ fuel ih =>
      rw [rbDeleteFixupLoopCosted, rbDeleteFixupLoop]
      split
      · rfl
      refine result_step _ fun xElement => ?_
      split
      · rfl
      refine result_step _ fun link => ?_
      refine result_step _ fun par => ?_
      refine result_step _ fun parElement => ?_
      refine Costed.result_bind (redSiblingCosted_result ..) fun sibling => ?_
      refine result_step _ fun black => ?_
      split
      · exact result_step _ fun s => ih ..
      · exact Costed.result_bind (outerNephewCosted_result ..) fun _ => rfl

theorem rbDeleteFixupCosted_result (s : Nodes κ) (parent : Nat) :
    (rbDeleteFixupCosted s parent).result = (rbDeleteFixup s parent).toOption := by
  refine result_step _ fun link => ?_
  refine result_step _ fun x => ?_
  exact Costed.result_bind (rbDeleteFixupLoopCosted_result ..) fun fixed =>
    Costed.result_ofExcept _

/-!
## An insertion
-/

theorem rotateCosted_atMost (d : Dir) (s : Nodes κ) (parent : Link) (leaf : Ptr) :
    (rotateCosted d s parent leaf).AtMost 1 :=
  Costed.atMost_ends_andThen (Nat.le_refl 1) (Costed.atMost_ofExcept _)

theorem turnOutwardCosted_atMost (d : Dir) (s : Nodes κ) (parent : Link) (leaf par : Ptr) :
    (turnOutwardCosted d s parent leaf par).AtMost 1 := by
  refine Costed.atMost_ofExcept_andThen fun parElement _ => ?_
  split
  · exact (rotateCosted_atMost _ _ _ _).andThen (n := 0) fun _ _ _ =>
      Costed.atMost_ends (Nat.le_refl 0) _
  · exact Costed.atMost_ends (Nat.zero_le 1) _

theorem rbInsertLoopCosted_atMost (fuel : Nat) (s : Nodes κ) (parent : Nat) (leaf : Ptr) :
    (rbInsertLoopCosted fuel s parent leaf).AtMost 2 := by
  induction fuel generalizing s parent leaf with
  | zero => exact Costed.atMost_fails 2
  | succ fuel ih =>
      rw [rbInsertLoopCosted]
      split
      · exact Costed.atMost_ends (Nat.zero_le 2) _
      refine Costed.atMost_ofExcept_andThen fun parLink _ => ?_
      refine Costed.atMost_ofExcept_andThen fun par _ => ?_
      refine Costed.atMost_ofExcept_andThen fun parElement _ => ?_
      split
      · exact Costed.atMost_ends (Nat.zero_le 2) _
      refine Costed.atMost_ofExcept_andThen fun par2Link _ => ?_
      refine Costed.atMost_ofExcept_andThen fun par2 _ => ?_
      refine Costed.atMost_ofExcept_andThen fun par2Element _ => ?_
      refine Costed.atMost_ofExcept_andThen fun yElement _ => ?_
      split
      · refine Costed.atMost_ofExcept_andThen fun s _ => ?_
        refine Costed.atMost_ofExcept_andThen fun s _ => ?_
        exact Costed.atMost_ofExcept_andThen fun s _ => ih _ _ _
      · refine (turnOutwardCosted_atMost _ _ _ _ _).andThen (n := 1) fun _ turned _ => ?_
        refine Costed.atMost_ofExcept_andThen fun s _ => ?_
        exact Costed.atMost_ofExcept_andThen fun s _ => rotateCosted_atMost _ _ _ _

theorem rbInsertCosted_atMost (s : Nodes κ) (parent : Nat) (leaf : Ptr) :
    (rbInsertCosted s parent leaf).AtMost 2 := by
  refine Costed.atMost_ofExcept_andThen fun s _ => ?_
  exact (rbInsertLoopCosted_atMost _ _ _ _).andThen (n := 0) fun _ _ _ => Costed.atMost_ofExcept _

/-!
## A deletion

Rotations move no colours, so that the element made red before the first one is still
red when the loop gets there.
-/

def RedAt (s : Nodes κ) (p : Ptr) : Prop :=
  exists e, s.heap p = some e ∧ e.colour = .red

theorem RedAt.modify {s s' : Nodes κ} {p q : Ptr} {f : Element κ -> Element κ}
    (h : RedAt s p) (hf : forall e, e.colour = .red -> (f e).colour = .red)
    (hmodify : s.modify q f = .ok s') : RedAt s' p := by
  rcases ok_of_bind hmodify with ⟨e, he, hupdate⟩
  cases hupdate
  rcases h with ⟨red, hred, hcolour⟩
  by_cases hsame : p = q
  · subst hsame
    rw [Nodes.element, hred] at he
    cases he
    exact ⟨f e, Function.update_self .., hf e hcolour⟩
  · refine ⟨red, ?_, hcolour⟩
    show Function.update s.heap q _ p = some red
    rw [Function.update_of_ne hsame]
    exact hred

theorem Element.setChild_colour (e : Element κ) (d : Dir) (p : Ptr) :
    (e.setChild d p).colour = e.colour := by
  cases d <;> rfl

theorem RedAt.setChild {s s' : Nodes κ} {p q r : Ptr} {d : Dir} (h : RedAt s p)
    (hmodify : s.modify q (fun e => e.setChild d r) = .ok s') : RedAt s' p := by
  apply h.modify _ hmodify
  intro e hred
  rw [Element.setChild_colour]
  exact hred

theorem RedAt.write {s s' : Nodes κ} {p q : Ptr} {link : Link} (h : RedAt s p)
    (hwrite : s.write link q = .ok s') : RedAt s' p := by
  cases link with
  | root =>
      cases hwrite
      exact h
  | child d r => exact h.setChild hwrite

theorem RedAt.rotate {s s' : Nodes κ} {p leaf : Ptr} {d : Dir} {parent : Link}
    (h : RedAt s p) (hrotate : rotate d s parent leaf = .ok s') : RedAt s' p := by
  rcases ok_of_bind hrotate with ⟨leafElement, _, hrotate⟩
  rcases ok_of_bind hrotate with ⟨yElement, _, hrotate⟩
  rcases ok_of_bind hrotate with ⟨s₁, hfirst, hrotate⟩
  rcases ok_of_bind hrotate with ⟨s₂, hsecond, hthird⟩
  exact ((h.setChild hfirst).write hsecond).setChild hthird

theorem RedAt.setParent {s s' : Nodes κ} {p : Ptr} {i : Nat} {link : Link} (h : RedAt s p)
    (hset : s.setParent i link = .ok s') : RedAt s' p := by
  rw [Nodes.setParent] at hset
  split at hset
  · cases hset
    exact h
  · cases hset

theorem redAt_setColour {s s' : Nodes κ} {p : Ptr} (hset : s.setColour p .red = .ok s') :
    RedAt s' p := by
  rcases ok_of_bind hset with ⟨e, _, hupdate⟩
  cases hupdate
  exact ⟨_, Function.update_self .., rfl⟩

theorem rotate_of_costed {s s' : Nodes κ} {d : Dir} {parent : Link} {leaf : Ptr} {cost : Nat}
    (h : rotateCosted d s parent leaf = .ends cost s') : rotate d s parent leaf = .ok s' := by
  apply eq_ok_of_toOption
  rw [← rotateCosted_result, h]
  rfl

/-- A rotation in the block for a red sibling leaves `par` red. -/
theorem redSiblingCosted_ensures (d : Dir) (s : Nodes κ) (parent : Nat) (par w : Ptr) :
    (redSiblingCosted d s parent par w).Ensures fun cost sibling =>
      cost = 0 ∨ cost <= 1 ∧ RedAt sibling.1 par := by
  refine Costed.ensures_ofExcept_andThen fun wElement _ => ?_
  split
  · refine Costed.ensures_ofExcept_andThen fun s₁ _ => ?_
    refine Costed.ensures_ofExcept_andThen fun s₂ hred => ?_
    refine Costed.ensures_ofExcept_andThen fun link _ => ?_
    refine Costed.ensures_andThen fun cost s₃ hrotate => ?_
    refine Costed.ensures_ofExcept_andThen fun s₄ hfirst => ?_
    refine Costed.ensures_ofExcept_andThen fun s₅ hsecond => ?_
    refine Costed.ensures_ofExcept_andThen fun parElement _ => ?_
    have hone := rotateCosted_atMost d s₂ link par cost s₃ hrotate
    have hstill := (redAt_setColour hred).rotate (rotate_of_costed hrotate)
    exact Costed.ensures_ends (Or.inr ⟨hone, (hstill.setParent hfirst).setParent hsecond⟩)
  · exact Costed.ensures_ends (Or.inl rfl)

theorem innerNephewCosted_atMost (d : Dir) (s : Nodes κ) (par w : Ptr) :
    (innerNephewCosted d s par w).AtMost 1 := by
  refine Costed.atMost_ofExcept_andThen fun wElement _ => ?_
  refine Costed.atMost_ofExcept_andThen fun far _ => ?_
  split
  · refine Costed.atMost_ofExcept_andThen fun s _ => ?_
    refine Costed.atMost_ofExcept_andThen fun s _ => ?_
    refine (rotateCosted_atMost _ _ _ _).andThen (n := 0) fun _ s _ => ?_
    exact Costed.atMost_ofExcept_andThen fun _ _ => Costed.atMost_ends (Nat.le_refl 0) _
  · exact Costed.atMost_ends (Nat.zero_le 1) _

theorem outerNephewCosted_atMost (d : Dir) (s : Nodes κ) (parent : Nat) (par w : Ptr) :
    (outerNephewCosted d s parent par w).AtMost 2 := by
  refine (innerNephewCosted_atMost d s par w).andThen (n := 1) fun _ inner _ => ?_
  refine Costed.atMost_ofExcept_andThen fun parElement _ => ?_
  refine Costed.atMost_ofExcept_andThen fun s _ => ?_
  refine Costed.atMost_ofExcept_andThen fun s _ => ?_
  refine Costed.atMost_ofExcept_andThen fun wElement _ => ?_
  refine Costed.atMost_ofExcept_andThen fun s _ => ?_
  exact Costed.atMost_ofExcept_andThen fun link _ => rotateCosted_atMost _ _ _ _

theorem RedAt.rbDeleteFixupLoopCosted_atMost {s : Nodes κ} {x : Ptr} (h : RedAt s x)
    (fuel parent : Nat) : (rbDeleteFixupLoopCosted fuel s parent x).AtMost 0 := by
  rcases h with ⟨e, hheap, hred⟩
  have helement : s.element x = .ok e := by
    rw [Nodes.element, hheap]
  cases fuel with
  | zero => exact Costed.atMost_fails 0
  | succ fuel =>
      rw [rbDeleteFixupLoopCosted]
      split
      · exact Costed.atMost_ends (Nat.le_refl 0) _
      · refine Costed.atMost_ofExcept_andThen fun xElement hx => ?_
        rw [helement] at hx
        cases hx
        rw [if_pos hred]
        exact Costed.atMost_ends (Nat.le_refl 0) _

theorem rbDeleteFixupLoopCosted_atMost (fuel : Nat) (s : Nodes κ) (parent : Nat) (x : Ptr) :
    (rbDeleteFixupLoopCosted fuel s parent x).AtMost 3 := by
  induction fuel generalizing s parent x with
  | zero => exact Costed.atMost_fails 3
  | succ fuel ih =>
      rw [rbDeleteFixupLoopCosted]
      split
      · exact Costed.atMost_ends (Nat.zero_le 3) _
      refine Costed.atMost_ofExcept_andThen fun xElement _ => ?_
      split
      · exact Costed.atMost_ends (Nat.zero_le 3) _
      refine Costed.atMost_ofExcept_andThen fun link _ => ?_
      refine Costed.atMost_ofExcept_andThen fun par _ => ?_
      refine Costed.atMost_ofExcept_andThen fun parElement _ => ?_
      refine Costed.ensures_andThen fun cost sibling hends => ?_
      refine Costed.ensures_ofExcept_andThen fun black _ => ?_
      have hsibling := redSiblingCosted_ensures _ _ _ _ _ cost sibling hends
      have hcost : cost <= 1 := by omega
      split
      · refine Costed.ensures_ofExcept_andThen fun s' hset => ?_
        rcases hsibling with hzero | ⟨_, hred⟩
        · refine Costed.Ensures.mono (ih s' _ par) fun more _ hmore => ?_
          omega
        · -- the loop goes on at the element above the rotation, which is red
          have hstill : RedAt s' par := hred.modify (fun _ _ => rfl) hset
          have hend := hstill.rbDeleteFixupLoopCosted_atMost fuel (sibling.2.1 - 1)
          refine Costed.Ensures.mono hend fun more _ hmore => ?_
          omega
      · refine Costed.ensures_andThen fun more s' houter => ?_
        have htwo := outerNephewCosted_atMost _ _ _ _ _ more s' houter
        apply Costed.ensures_ends
        omega

theorem rbDeleteFixupCosted_atMost (s : Nodes κ) (parent : Nat) :
    (rbDeleteFixupCosted s parent).AtMost 3 := by
  refine Costed.atMost_ofExcept_andThen fun link _ => ?_
  refine Costed.atMost_ofExcept_andThen fun x _ => ?_
  exact (rbDeleteFixupLoopCosted_atMost _ s parent x).andThen (n := 0) fun _ _ _ =>
    Costed.atMost_ofExcept _

/-- However high the tree and whatever it holds: when `rb_insert` returns it has rotated
at most twice, and `rb_delete_fixup` at most three times. -/
theorem fixups_rotate_constantly (s : Nodes κ) (parent : Nat) (leaf : Ptr) :
    ((rbInsertCosted s parent leaf).result = (rbInsert s parent leaf).toOption ∧
      (rbInsertCosted s parent leaf).AtMost 2) ∧
    ((rbDeleteFixupCosted s parent).result = (rbDeleteFixup s parent).toOption ∧
      (rbDeleteFixupCosted s parent).AtMost 3) :=
  ⟨⟨rbInsertCosted_result s parent leaf, rbInsertCosted_atMost s parent leaf⟩,
    ⟨rbDeleteFixupCosted_result s parent, rbDeleteFixupCosted_atMost s parent⟩⟩

end RBTree
end MyLibs
