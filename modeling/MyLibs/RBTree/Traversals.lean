import Mathlib.Algebra.Ring.Int.Defs
import MyLibs.Foundation.NestedWalk
import MyLibs.RBTree.Cursors

/-!
# Traversals

The recursive walks visit the elements in order until a callback answers
something else than zero. A cursor takes the same way.
-/

namespace MyLibs
namespace RBTree

open Foundation

variable {κ τ : Type} {s : Nodes κ} {ctx : Context (Node κ)} {t : ColourTree (Node κ)} {d : Dir}
  {settings : Settings κ} {calls : List (Call κ)} {tree : RbTree κ}

def RbtreeWalkAction.visit (action : RbtreeWalkAction κ τ) (argument : τ) (v : Node κ) : Int × τ :=
  action v.key v.count argument

theorem walk_nil (h : Rep s (plug ctx .nil)) (action : RbtreeWalkAction κ τ) (turns : Nat)
    (argument : τ) : walk d s action (turns + 1) s.nullElement argument = .ok (0, argument) := by
  have helement : s.element s.nullElement = .ok nullElement := by
    rw [Nodes.element, h.sentinel]
  have hchild : (nullElement : Element κ).child d = NULL := by
    cases d <;> rfl
  rw [walk, helement]
  exact if_pos hchild

theorem walk_spec {turns : Nat} (h : Rep s (plug ctx t)) (hturns : t.height < turns)
    (action : RbtreeWalkAction κ τ) (argument : τ) :
    walk d s action turns (addrOf s.nullElement t) argument =
      .ok (visitAll action.visit (t.ordered d) argument) := by
  induction turns generalizing ctx t argument with
  | zero => cases hturns
  | succ turns ih =>
      by_cases hnil : t = .nil
      · subst hnil
        rw [addrOf, walk_nil h, ColourTree.ordered_nil, visitAll]
      · rcases ColourTree.exists_mk d hnil with ⟨c, a, v, b, rfl⟩
        have hnear : Rep s (plug (⟨d, c, v, b⟩ :: ctx) a) := h
        have hfar : Rep s (plug (⟨d.other, c, v, a⟩ :: ctx) b) := by
          rw [plug_cons, Frame.fill, ColourTree.mk_other]
          exact h
        have hturnsNear : a.height < turns :=
          Nat.lt_of_lt_of_le (Frame.height_lt ⟨d, c, v, b⟩ a) (Nat.le_of_lt_succ hturns)
        have hturnsFar : b.height < turns := by
          have hheight := Frame.height_lt ⟨d.other, c, v, a⟩ b
          rw [Frame.fill, ColourTree.mk_other] at hheight
          exact Nat.lt_of_lt_of_le hheight (Nat.le_of_lt_succ hturns)
        have hvisit : forall own, action v.key v.count own = action.visit own v :=
          fun own => rfl
        rw [addrOf_mk, walk, h.element, ColourTree.ordered_mk, visitAll_append]
        simp only [bind, Except.bind, mkElement_child, mkElement_child_other,
          if_neg hnear.addrOf_ne_NULL, ih hnear hturnsNear, ih hfar hturnsFar,
          elementKey_frame hnear, visitAll, mkElement_count, hvisit, ite_not, apply_ite Except.ok]

def RbtreeWalkType.dir : RbtreeWalkType -> Dir
  | .LEFT_ROOT_RIGHT => .left
  | .RIGHT_ROOT_LEFT => .right

theorem treeWalk_spec {turns : Nat} (h : Rep tree.nodes t) (hturns : t.height < turns)
    (action : RbtreeWalkAction κ τ) (argument : τ) (visit : RbtreeWalkType) :
    treeWalk turns tree action argument visit =
      .ok (visitAll action.visit (t.ordered visit.dir) argument) := by
  have hrep : Rep tree.nodes (plug [] t) := h
  cases visit with
  | LEFT_ROOT_RIGHT =>
      rw [treeWalk, rbtreeWalkLeftRootRight, h.root_eq]
      exact walk_spec hrep hturns action argument
  | RIGHT_ROOT_LEFT =>
      rw [treeWalk, rbtreeWalkRightRootLeft, h.root_eq]
      exact walk_spec hrep hturns action argument

def noteKey : RbtreeWalkAction κ (List κ) :=
  fun key _ keys => (0, keys ++ [key])

theorem visitAll_noteKey (l : List (Node κ)) (keys : List κ) :
    visitAll (noteKey (κ := κ)).visit l keys = (0, keys ++ l.map Node.key) := by
  induction l generalizing keys with
  | nil => rw [visitAll, List.map_nil, List.append_nil]
  | cons v l ih =>
      have hzero : ((noteKey (κ := κ)).visit keys v).1 = 0 := rfl
      rw [visitAll, if_pos hzero]
      show visitAll _ l (keys ++ [v.key]) = _
      rw [ih, List.map_cons, List.append_assoc, List.singleton_append]

/-!
## Cursors and walks agree
-/

/-- What a cursor and the walks do with the elements of a tree that is somewhere
in order. Offsets exchanged make the other direction. -/
structure Traversed (tree : RbTree κ) (t : ColourTree (Node κ)) : Prop where
  /-- The keys a walk passes to an action that always returns 0. -/
  walk_keys : forall turns visit, t.height < turns ->
    treeWalk turns tree noteKey [] visit = .ok (0, (t.ordered visit.dir).map Node.key)
  /-- The keys from the first element to `NULL`. -/
  edge_keys : forall path turns d, t.height < path.places -> t.size < turns ->
    exists found, rbtreeSearchEdge tree path d = .ok found ∧
      cursorKeys tree d d.other turns found = .ok ((t.ordered d).map Node.key)
  /-- The keys from an element found to `NULL`, for any comparison. -/
  found_keys : forall path turns compare flag, t.height < path.places -> t.size < turns ->
    exists found, searchKey tree compare path flag = .ok found ∧
      forall key, found.1 = some key -> forall d, exists earlier w rest,
        t.ordered d = earlier ++ w :: rest ∧ w.key = key ∧
          cursorKeys tree d d.other turns found = .ok ((w :: rest).map Node.key)
  /-- Any action is called up to its first result that is not zero. -/
  walk_prefix : forall {τ : Type} (action : RbtreeWalkAction κ τ) turns argument visit,
    t.height < turns -> exists visited rest result, t.ordered visit.dir = visited ++ rest ∧
      treeWalk turns tree action argument visit = .ok result ∧
      Visited action.visit argument visited result ∧ (result.1 = 0 -> rest = [])

theorem length_ordered (d : Dir) (t : ColourTree (Node κ)) : (t.ordered d).length = t.size := by
  cases d with
  | left => exact t.length_toList
  | right => exact (List.length_reverse ..).trans t.length_toList

theorem Rep.traversed (h : Rep tree.nodes t) : Traversed tree t where
  walk_keys := by
    intro turns visit hturns
    rw [treeWalk_spec h hturns, visitAll_noteKey, List.nil_append]
  edge_keys := by
    intro path turns d hroom hturns
    rcases rbtreeSearchEdge_spec d h hroom with ⟨found, hedge, hplaces, hcomes⟩
    rw [← hplaces] at hroom
    rw [← length_ordered d] at hturns
    exact ⟨found, hedge, cursorKeys_spec h hroom hturns hcomes⟩
  found_keys := by
    intro path turns compare flag hroom hturns
    rcases searchKey_spec compare flag h hroom with ⟨found, hsearch, hplaces, hfound⟩
    rw [← hplaces] at hroom
    refine ⟨found, hsearch, fun key hkey d => ?_⟩
    rcases hfound key hkey d with ⟨earlier, w, rest, hordered, hcomes⟩
    have hlength : (w :: rest).length < turns := by
      rw [← length_ordered d, hordered, List.length_append] at hturns
      omega
    have hsame : some w.key = some key := hcomes.left.symm.trans hkey
    exact ⟨earlier, w, rest, hordered, Option.some.inj hsame,
      cursorKeys_spec h hroom hlength hcomes⟩
  walk_prefix := by
    intro τ action turns argument visit hturns
    rcases visitAll_visited action.visit (t.ordered visit.dir) argument with
      ⟨visited, rest, hordered, hvisited, hrest⟩
    exact ⟨visited, rest, _, hordered, treeWalk_spec h hturns action argument visit, hvisited,
      hrest⟩

/-- In every reachable tree cursors and walks go through the same elements, each
once: ascending from the left, descending from the right. -/
theorem cursors_agree_with_walks (h : settings.Proper)
    (hrun : Run Call.Allowed settings.start calls tree) :
    exists t : ColourTree (Node κ), Rep tree.nodes t ∧
      t.toList.Pairwise (fun u v => settings.compare u.key v.key < 0) ∧ Traversed tree t := by
  rcases hrun.valid h with ⟨hsettings, t, hvalid⟩
  have hascending := hvalid.ascending
  rw [hsettings.compare_eq] at hascending
  exact ⟨t, hvalid.rep, hascending, hvalid.rep.traversed⟩

theorem cursors_agree_with_walks_shortRun : exists tree,
    Run Call.Allowed integerSettings.start shortRun tree ∧
      exists t : ColourTree (Node Int), Rep tree.nodes t ∧ Traversed tree t := by
  rcases shortRun_run with ⟨tree, hrun⟩
  rcases cursors_agree_with_walks integerSettings_proper hrun with ⟨t, hrep, _, htraversed⟩
  exact ⟨tree, hrun, t, hrep, htraversed⟩

end RBTree
end MyLibs
